import Mathlib.Tactic.SplitIfs
import SchemaLint.Text.Bytes

/-!
# The order of bytes

Texts are compared character by character. Comparing the bytes of their UTF-8 forms gives
the same order: a greater character has the greater bytes, and the bytes of a character are
never the start of another's.
-/

namespace SchemaLint.Text

/-- The bytes of a text. -/
def bytes (s : String) : List UInt8 := s.toByteArray.data.toList

theorem bytes_eq_flatMap (s : String) : bytes s = s.toList.flatMap String.utf8EncodeChar := by
  rw [bytes, ← String.utf8Encode_toList, List.utf8Encode, List.data_toByteArray]

/-- The bytes of a greater character are greater, whatever follows them. -/
theorem utf8EncodeChar_append_lt {c d : Char} (h : c < d) (x y : List UInt8) :
    String.utf8EncodeChar c ++ x < String.utf8EncodeChar d ++ y := by
  have hlt : c.val.toNat < d.val.toNat := h
  have hmax : d.val.toNat < 0x110000 := by
    have hvalid := d.valid
    simp only [UInt32.isValidChar, Nat.isValidChar] at hvalid
    omega
  -- Each byte holds a digit to the base 64, so the quotients are taken one digit at a time.
  have htwo : ∀ v : Nat, v / 4096 = v / 64 / 64 := by omega
  have hthree : ∀ v : Nat, v / 262144 = v / 64 / 64 / 64 := by omega
  generalize hv : c.val.toNat = v at hlt
  generalize hw : d.val.toNat = w at hlt hmax
  simp only [String.utf8EncodeChar, hv, hw, htwo, hthree]
  split_ifs <;>
    simp (disch := omega) only [List.cons_append, List.nil_append, List.cons_lt_cons_iff,
      UInt8.lt_iff_toNat_lt, ← UInt8.toNat_inj, UInt8.toNat_ofNat', Nat.mod_eq_of_lt] <;>
    omega

theorem append_lt_append_left (a : List UInt8) {x y : List UInt8} (h : x < y) :
    a ++ x < a ++ y := by
  induction a with
  | nil => exact h
  | cons b a ih => exact List.cons_lt_cons_iff.mpr (.inr ⟨rfl, ih⟩)

theorem flatMap_utf8EncodeChar_lt {cs ds : List Char} (h : cs < ds) :
    cs.flatMap String.utf8EncodeChar < ds.flatMap String.utf8EncodeChar := by
  induction cs generalizing ds with
  | nil =>
    cases ds with
    | nil => exact absurd h (List.lt_irrefl _)
    | cons d ds =>
      rw [List.flatMap_nil, List.flatMap_cons]
      cases hd : String.utf8EncodeChar d with
      | nil => exact absurd hd String.utf8EncodeChar_ne_nil
      | cons b bs => exact List.nil_lt_cons _ _
  | cons c cs ih =>
    cases ds with
    | nil => exact absurd h (List.not_lt_nil _)
    | cons d ds =>
      rw [List.flatMap_cons, List.flatMap_cons]
      rcases List.cons_lt_cons_iff.mp h with hcd | ⟨rfl, hrest⟩
      · exact utf8EncodeChar_append_lt hcd _ _
      · exact append_lt_append_left _ (ih hrest)

theorem bytes_lt_iff {s t : String} : bytes s < bytes t ↔ s < t := by
  have hmono : ∀ {a b : String}, a < b → bytes a < bytes b := by
    intro a b hab
    rw [bytes_eq_flatMap, bytes_eq_flatMap]
    exact flatMap_utf8EncodeChar_lt hab
  refine ⟨fun h => String.not_le.mp fun hle => ?_, hmono⟩
  by_cases hge : s ≤ t
  · obtain rfl := String.le_antisymm hle hge
    exact List.lt_irrefl _ h
  · exact List.lt_asymm h (hmono (String.not_le.mp hge))

/-- Lists of texts are compared in the same way by their bytes. -/
theorem map_bytes_lt_iff {as bs : List String} : as.map bytes < bs.map bytes ↔ as < bs := by
  induction as generalizing bs with
  | nil => cases bs <;> simp
  | cons a as ih =>
    cases bs with
    | nil => simp
    | cons b bs =>
      have hinj : bytes a = bytes b ↔ a = b := by
        refine ⟨fun h => ?_, congrArg bytes⟩
        exact String.toByteArray_inj.mp (ByteArray.ext (Array.toList_inj.mp h))
      simp only [List.map_cons, List.cons_lt_cons_iff, bytes_lt_iff, hinj, ih]

end SchemaLint.Text
