import Mathlib.Order.Bounds.Defs
import SchemaLint.Text.Distance

/-!
# The least number of edits

An edit inserts, deletes or replaces one character, anywhere in a text. A script is any
sequence of edits: nothing keeps it from touching a place twice, or from growing the text
before it shrinks. The rows know nothing of scripts. They fill a table by the recursion on
the last characters, which is stated here on its own; that no script does better than the
recursion is the fact that one edit moves every distance by at most 1.
-/

namespace SchemaLint.Text

/-- One text comes from the other by an edit. -/
inductive Edit : List Char → List Char → Prop
  | insert (before after : List Char) (c : Char) : Edit (before ++ after) (before ++ c :: after)
  | delete (before after : List Char) (c : Char) : Edit (before ++ c :: after) (before ++ after)
  | replace (before after : List Char) (c d : Char) :
      Edit (before ++ c :: after) (before ++ d :: after)

/-- A script of `n` edits leads from one text to the other. -/
inductive Edits : Nat → List Char → List Char → Prop
  | none (xs : List Char) : Edits 0 xs xs
  | step {n : Nat} {xs ys zs : List Char} (script : Edits n xs ys) (edit : Edit ys zs) :
      Edits (n + 1) xs zs

/-! ## Scripts -/

theorem Edit.symm {xs ys : List Char} (h : Edit xs ys) : Edit ys xs := by
  cases h with
  | insert before after c => exact .delete before after c
  | delete before after c => exact .insert before after c
  | replace before after c d => exact .replace before after d c

theorem Edit.cons {xs ys : List Char} (h : Edit xs ys) (c : Char) : Edit (c :: xs) (c :: ys) := by
  cases h with
  | insert before after d => exact .insert (c :: before) after d
  | delete before after d => exact .delete (c :: before) after d
  | replace before after d e => exact .replace (c :: before) after d e

theorem Edit.reverse {xs ys : List Char} (h : Edit xs ys) : Edit xs.reverse ys.reverse := by
  cases h with
  | insert before after c => simpa using Edit.insert after.reverse before.reverse c
  | delete before after c => simpa using Edit.delete after.reverse before.reverse c
  | replace before after c d => simpa using Edit.replace after.reverse before.reverse c d

theorem Edit.length_le {xs ys : List Char} (h : Edit xs ys) : ys.length ≤ xs.length + 1 := by
  cases h <;> simp <;> omega

namespace Edits

variable {m n : Nat} {xs ys zs : List Char}

theorem trans (h : Edits m xs ys) (h' : Edits n ys zs) : Edits (m + n) xs zs := by
  induction h' with
  | none => exact h
  | step _ edit ih => exact .step (ih h) edit

theorem symm (h : Edits n xs ys) : Edits n ys xs := by
  induction h with
  | none => exact .none _
  | @step n _ _ _ _ edit ih =>
    rw [Nat.add_comm]
    exact trans (.step (.none _) edit.symm) ih

theorem cons (h : Edits n xs ys) (c : Char) : Edits n (c :: xs) (c :: ys) := by
  induction h with
  | none => exact .none _
  | step _ edit ih => exact .step ih (edit.cons c)

theorem reverse (h : Edits n xs ys) : Edits n xs.reverse ys.reverse := by
  induction h with
  | none => exact .none _
  | step _ edit ih => exact .step ih edit.reverse

theorem reverse_iff : Edits n xs.reverse ys.reverse ↔ Edits n xs ys :=
  ⟨fun h => by simpa using h.reverse, reverse⟩

theorem zero_iff : Edits 0 xs ys ↔ xs = ys := by
  constructor
  · rintro ⟨⟩
    rfl
  · rintro rfl
    exact .none xs

theorem length_le (h : Edits n xs ys) : ys.length ≤ xs.length + n := by
  induction h with
  | none => exact Nat.le_refl _
  | step _ edit ih =>
    have := edit.length_le
    omega

end Edits

/-! ## The recursion -/

/-- The distance of two texts that are read from their last characters on: the characters
in front are a pair, or one of them stands alone. -/
def distance : List Char → List Char → Nat
  | [], ys => ys.length
  | x :: xs, [] => (x :: xs).length
  | x :: xs, y :: ys =>
      min (min (distance xs (y :: ys) + 1) (distance (x :: xs) ys + 1))
        (if x = y then distance xs ys else distance xs ys + 1)

@[simp] theorem distance_nil_left (ys : List Char) : distance [] ys = ys.length := by
  rw [distance]

@[simp] theorem distance_nil_right (xs : List Char) : distance xs [] = xs.length := by
  cases xs <;> rw [distance]

theorem distance_cons_cons (x y : Char) (xs ys : List Char) :
    distance (x :: xs) (y :: ys) =
      min (min (distance xs (y :: ys) + 1) (distance (x :: xs) ys + 1))
        (if x = y then distance xs ys else distance xs ys + 1) := by
  rw [distance]

/-- Where the least of the three comes from. -/
theorem distance_cons_cons_cases (x y : Char) (xs ys : List Char) :
    distance (x :: xs) (y :: ys) = distance xs (y :: ys) + 1 ∨
      distance (x :: xs) (y :: ys) = distance (x :: xs) ys + 1 ∨
      distance (x :: xs) (y :: ys) = distance xs ys + 1 ∨
      x = y ∧ distance (x :: xs) (y :: ys) = distance xs ys := by
  rw [distance_cons_cons]
  split
  · next hxy =>
    simp only [hxy, true_and]
    omega
  · omega

theorem distance_self (xs : List Char) : distance xs xs = 0 := by
  induction xs with
  | nil => simp
  | cons x xs ih => simp [distance_cons_cons, ih]

theorem distance_le_max (xs ys : List Char) : distance xs ys ≤ max xs.length ys.length := by
  induction xs generalizing ys with
  | nil => simp
  | cons x xs ih =>
    cases ys with
    | nil => simp
    | cons y ys =>
      have hpair := ih ys
      rw [distance_cons_cons, List.length_cons, List.length_cons]
      split <;> omega

/-! ### One edit moves a distance by at most 1 -/

theorem distance_cons_left_le (xs ys : List Char) (x : Char) :
    distance (x :: xs) ys ≤ distance xs ys + 1 := by
  cases ys with
  | nil => simp
  | cons y ys =>
    rw [distance_cons_cons]
    omega

theorem distance_insert_le (xs ys : List Char) (y : Char) :
    distance xs (y :: ys) ≤ distance xs ys + 1 := by
  cases xs with
  | nil => simp
  | cons x xs =>
    rw [distance_cons_cons]
    omega

theorem distance_delete_le (xs ys : List Char) (y : Char) :
    distance xs ys ≤ distance xs (y :: ys) + 1 := by
  induction xs with
  | nil =>
    simp only [distance_nil_left, List.length_cons]
    omega
  | cons x xs ih =>
    -- Without `y` the character `x` can be deleted, whatever it was set against.
    have hdelete := distance_cons_left_le xs ys x
    rw [distance_cons_cons]
    split <;> omega

theorem distance_replace_le (xs ys : List Char) (y z : Char) :
    distance xs (z :: ys) ≤ distance xs (y :: ys) + 1 := by
  induction xs with
  | nil => simp
  | cons x xs ih =>
    rw [distance_cons_cons, distance_cons_cons]
    split <;> split <;> omega

/-- A bound for all texts holds behind one more character too. -/
theorem distance_cons_le {ys zs : List Char}
    (h : ∀ xs, distance xs zs ≤ distance xs ys + 1) (y : Char) (xs : List Char) :
    distance xs (y :: zs) ≤ distance xs (y :: ys) + 1 := by
  induction xs with
  | nil => simpa using h []
  | cons x xs ih =>
    have hboth := h xs
    have halone := h (x :: xs)
    rw [distance_cons_cons, distance_cons_cons]
    split <;> omega

theorem distance_append_le {ys zs : List Char}
    (h : ∀ xs, distance xs zs ≤ distance xs ys + 1) (before xs : List Char) :
    distance xs (before ++ zs) ≤ distance xs (before ++ ys) + 1 := by
  induction before generalizing xs with
  | nil => exact h xs
  | cons y before ih => exact distance_cons_le ih y xs

theorem Edit.distance_le {ys zs : List Char} (h : Edit ys zs) (xs : List Char) :
    distance xs zs ≤ distance xs ys + 1 := by
  cases h with
  | insert before after c => exact distance_append_le (distance_insert_le · after c) before xs
  | delete before after c => exact distance_append_le (distance_delete_le · after c) before xs
  | replace before after c d =>
    exact distance_append_le (distance_replace_le · after c d) before xs

theorem Edits.distance_le {n : Nat} {xs ys : List Char} (h : Edits n xs ys) :
    distance xs ys ≤ n := by
  induction h with
  | none xs => exact Nat.le_of_eq (distance_self xs)
  | step _ edit ih => exact Nat.le_trans (edit.distance_le _) (Nat.succ_le_succ ih)

/-! ### The distance is reached -/

theorem edits_nil (ys : List Char) : Edits ys.length [] ys := by
  induction ys with
  | nil => exact .none []
  | cons y ys ih => exact .step ih (.insert [] ys y)

theorem edits_distance (xs ys : List Char) : Edits (distance xs ys) xs ys := by
  induction xs generalizing ys with
  | nil =>
    rw [distance_nil_left]
    exact edits_nil ys
  | cons x xs ihxs =>
    induction ys with
    | nil =>
      rw [distance_nil_right]
      exact (edits_nil (x :: xs)).symm
    | cons y ys ihys =>
      -- Each way to the least of the three is one edit at the front.
      rcases distance_cons_cons_cases x y xs ys with h | h | h | ⟨rfl, h⟩
      · rw [h, Nat.add_comm]
        exact .trans (.step (.none _) (.delete [] xs x)) (ihxs (y :: ys))
      · rw [h]
        exact .step ihys (.insert [] ys y)
      · rw [h]
        exact .step ((ihxs ys).cons x) (.replace [] ys x y)
      · rw [h]
        exact (ihxs ys).cons x

/-! ## The rows -/

/-- The distances of `xs` to `vs` and to the texts that `vs` becomes as the characters of a
text are put in front of it one by one. -/
def distances (xs : List Char) : List Char → List Char → List Nat
  | vs, [] => [distance xs vs]
  | vs, y :: ys => distance xs vs :: distances xs (y :: vs) ys

theorem distances_eq_cons (xs vs ys : List Char) :
    distances xs vs ys = distance xs vs :: (distances xs vs ys).tail := by
  cases ys <;> rfl

/-- The cells right of the first one are the next distances if the row above holds the
distances without the new character. -/
theorem nextCells_distances (x : Char) (xs vs ys : List Char) :
    nextCells x ys (distances xs vs ys).tail (distance xs vs) (distance (x :: xs) vs) =
      (distances (x :: xs) vs ys).tail := by
  induction ys generalizing vs with
  | nil => rfl
  | cons y ys ih =>
    have habove : (distances xs vs (y :: ys)).tail =
        distance xs (y :: vs) :: (distances xs (y :: vs) ys).tail := distances_eq_cons xs _ ys
    have hbelow : (distances (x :: xs) vs (y :: ys)).tail =
        distance (x :: xs) (y :: vs) :: (distances (x :: xs) (y :: vs) ys).tail :=
      distances_eq_cons (x :: xs) _ ys
    rw [habove, hbelow, nextCells, ← distance_cons_cons, ih]

theorem nextRow_distances (xs ys : List Char) (x : Char) :
    nextRow ys (distances xs [] ys) x = distances (x :: xs) [] ys := by
  have hfirst : distance (x :: xs) [] = distance xs [] + 1 := by simp
  rw [distances_eq_cons xs [] ys, distances_eq_cons (x :: xs) [] ys, nextRow, ← hfirst,
    nextCells_distances]

theorem foldl_nextRow (us xs ys : List Char) :
    xs.foldl (nextRow ys) (distances us [] ys) = distances (xs.reverse ++ us) [] ys := by
  induction xs generalizing us with
  | nil => rfl
  | cons x xs ih =>
    rw [List.foldl_cons, nextRow_distances, ih, List.reverse_cons, List.append_assoc]
    rfl

theorem distances_nil (vs ys : List Char) :
    distances [] vs ys = List.range' vs.length (ys.length + 1) := by
  induction ys generalizing vs with
  | nil => simp [distances]
  | cons y ys ih => simp [distances, ih, List.range'_succ]

theorem getLastD_distances (xs vs ys : List Char) (n : Nat) :
    (distances xs vs ys).getLastD n = distance xs (ys.reverse ++ vs) := by
  induction ys generalizing vs n with
  | nil => rfl
  | cons y ys ih =>
    rw [distances, List.getLastD_cons, ih, List.reverse_cons, List.append_assoc]
    rfl

theorem editDistance_eq_distance (xs ys : List Char) :
    editDistance xs ys = distance xs.reverse ys.reverse := by
  have hfirst : List.range (ys.length + 1) = distances [] [] ys := by
    rw [distances_nil, List.range_eq_range', List.length_nil]
  rw [editDistance, hfirst, foldl_nextRow, getLastD_distances, List.append_nil, List.append_nil]

/-! ## The distance of two texts -/

theorem editDistance_isLeast (xs ys : List Char) :
    IsLeast {n | Edits n xs ys} (editDistance xs ys) := by
  rw [editDistance_eq_distance]
  constructor
  · exact Edits.reverse_iff.mp (edits_distance xs.reverse ys.reverse)
  · intro n hn
    exact (Edits.reverse_iff.mpr hn).distance_le

theorem edits_editDistance (xs ys : List Char) : Edits (editDistance xs ys) xs ys :=
  (editDistance_isLeast xs ys).1

theorem Edits.editDistance_le {n : Nat} {xs ys : List Char} (h : Edits n xs ys) :
    editDistance xs ys ≤ n :=
  (editDistance_isLeast xs ys).2 h

theorem editDistance_eq_zero_iff {xs ys : List Char} : editDistance xs ys = 0 ↔ xs = ys := by
  constructor
  · intro h
    exact Edits.zero_iff.mp (h ▸ edits_editDistance xs ys)
  · rintro rfl
    exact Nat.le_zero.mp (Edits.none xs).editDistance_le

theorem editDistance_comm (xs ys : List Char) : editDistance xs ys = editDistance ys xs :=
  Nat.le_antisymm (edits_editDistance ys xs).symm.editDistance_le
    (edits_editDistance xs ys).symm.editDistance_le

theorem editDistance_triangle (xs ys zs : List Char) :
    editDistance xs zs ≤ editDistance xs ys + editDistance ys zs :=
  ((edits_editDistance xs ys).trans (edits_editDistance ys zs)).editDistance_le

theorem length_le_add_editDistance (xs ys : List Char) :
    ys.length ≤ xs.length + editDistance xs ys :=
  (edits_editDistance xs ys).length_le

theorem editDistance_le_max (xs ys : List Char) :
    editDistance xs ys ≤ max xs.length ys.length := by
  rw [editDistance_eq_distance]
  simpa using distance_le_max xs.reverse ys.reverse

/-- The rows give the least number of edits that turn one text into the other. So the
distance is a metric on texts, and lies between the difference of their lengths and the
greater length, counted in characters. -/
theorem editDistance_least_edits_and_metric :
    (∀ a b : String,
      IsLeast {n | Edits n a.toList b.toList} (editDistance a.toList b.toList)) ∧
    (∀ a b : String, editDistance a.toList b.toList = 0 ↔ a = b) ∧
    (∀ a b : String, editDistance a.toList b.toList = editDistance b.toList a.toList) ∧
    (∀ a b c : String, editDistance a.toList c.toList ≤
      editDistance a.toList b.toList + editDistance b.toList c.toList) ∧
    ∀ a b : String,
      ((a.length : Int) - b.length).natAbs ≤ editDistance a.toList b.toList ∧
        editDistance a.toList b.toList ≤ max a.length b.length := by
  refine ⟨fun a b => editDistance_isLeast _ _, fun a b => ?_, fun a b => editDistance_comm _ _,
    fun a b c => editDistance_triangle _ _ _, fun a b => ⟨?_, ?_⟩⟩
  · rw [editDistance_eq_zero_iff, String.toList_inj]
  · have hb := length_le_add_editDistance a.toList b.toList
    have ha := length_le_add_editDistance b.toList a.toList
    rw [editDistance_comm b.toList] at ha
    rw [← String.length_toList, ← String.length_toList]
    omega
  · rw [← String.length_toList, ← String.length_toList]
    exact editDistance_le_max a.toList b.toList

example : editDistance "kitten".toList "sitting".toList = 3 := by decide

end SchemaLint.Text
