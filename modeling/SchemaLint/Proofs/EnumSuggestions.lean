import Mathlib.Data.List.Nodup
import SchemaLint.Proofs.EditDistance
import SchemaLint.Rule.EnumValue

/-!
# What is suggested for an enum value

Three sources are asked in turn: a table of known slips, the standard name that is left
without the digits, and the first standard name close to that rest. The table is asked
first, yet never overrules a standard name: what it says of a value whose rest is one is
that very name. How close two texts are is said by scripts of edits, not by the table of
distances that finds the least of them.
-/

namespace SchemaLint.Rule

open Text

/-- At most two edits lead from the text to the name. -/
def Near (text : List Char) (name : String) : Prop := ∃ n ≤ 2, Edits n text name.toList

theorem near_iff {text : List Char} {name : String} :
    Near text name ↔ editDistance text name.toList ≤ suggestionDistance := by
  constructor
  · rintro ⟨n, hn, hedits⟩
    exact Nat.le_trans hedits.editDistance_le hn
  · intro h
    exact ⟨_, h, edits_editDistance text name.toList⟩

instance (text : List Char) : DecidablePred (Near text) := fun _ => decidable_of_iff _ near_iff.symm

/-- The digits are all that keeps the value from being a standard name. -/
def IsPadded (value : String) : Prop :=
  ∃ name ∈ standardEnumNames, withoutDigits value = name.toList

instance : DecidablePred IsPadded := fun _ => inferInstanceAs (Decidable (∃ name ∈ _, _))

/-- There is a correction for the value. -/
def IsKnownSlip (value : String) : Prop := value ∈ enumCorrections.map (·.1)

instance : DecidablePred IsKnownSlip := fun _ => inferInstanceAs (Decidable (_ ∈ _))

/-- What there is to suggest for a value, and when there is nothing. -/
inductive Suggested (value : String) : Option String → Prop
  | padded {name : String} (standard : name ∈ standardEnumNames)
      (rest : withoutDigits value = name.toList) : Suggested value (some name)
  | corrected {correction : String} (unpadded : ¬ IsPadded value)
      (entry : (value, correction) ∈ enumCorrections) : Suggested value (some correction)
  | near {before after : List String} {name : String} (unpadded : ¬ IsPadded value)
      (unknown : ¬ IsKnownSlip value) (split : standardEnumNames = before ++ name :: after)
      (close : Near (withoutDigits value) name)
      (first : ∀ other ∈ before, ¬ Near (withoutDigits value) other) : Suggested value (some name)
  | nothing (unknown : ¬ IsKnownSlip value)
      (far : ∀ name ∈ standardEnumNames, ¬ Near (withoutDigits value) name) : Suggested value none

/-! ## The three sources -/

theorem enumCorrections_nodup : (enumCorrections.map (·.1)).Nodup := by decide

/-- No entry of the table contradicts a standard name. -/
theorem enumCorrections_padded : ∀ e ∈ enumCorrections, ∀ name ∈ standardEnumNames,
    withoutDigits e.1 = name.toList → e.2 = name := by decide

theorem suggestEnumValue?_eq_or (value : String) :
    suggestEnumValue? value =
      ((enumCorrections.find? (·.1 == value)).map (·.2)).or
        ((standardEnumNames.find? (·.toList == withoutDigits value)).or
          (standardEnumNames.find? (Near (withoutDigits value) ·))) := by
  simp only [suggestEnumValue?, Option.orElse_eq_orElse, Option.orElse_eq_or, near_iff]

theorem mem_of_find?_enumCorrections {value : String} {e : String × String}
    (h : enumCorrections.find? (·.1 == value) = some e) : e ∈ enumCorrections ∧ e.1 = value :=
  ⟨List.mem_of_find?_eq_some h, by simpa using List.find?_some h⟩

theorem map_find?_enumCorrections_eq_some {value correction : String}
    (h : (value, correction) ∈ enumCorrections) :
    (enumCorrections.find? (·.1 == value)).map (·.2) = some correction := by
  cases hfind : enumCorrections.find? (·.1 == value) with
  | none => simpa using List.find?_eq_none.mp hfind _ h
  | some e =>
    obtain ⟨hentry, hkey⟩ := mem_of_find?_enumCorrections hfind
    obtain rfl : e = (value, correction) :=
      List.inj_on_of_nodup_map enumCorrections_nodup hentry h hkey
    rfl

theorem find?_enumCorrections_eq_none {value : String} (h : ¬ IsKnownSlip value) :
    enumCorrections.find? (·.1 == value) = none := by
  rw [List.find?_eq_none]
  intro e he hkey
  exact h (List.mem_map.mpr ⟨e, he, beq_iff_eq.mp hkey⟩)

theorem find?_padded_eq_some {text : List Char} {name : String} (h : name ∈ standardEnumNames)
    (hrest : text = name.toList) : standardEnumNames.find? (·.toList == text) = some name := by
  cases hfind : standardEnumNames.find? (·.toList == text) with
  | none => simpa [hrest] using List.find?_eq_none.mp hfind _ h
  | some other =>
    have hother : other.toList = text := by simpa using List.find?_some hfind
    rw [String.toList_inj.mp (hother.trans hrest)]

theorem find?_padded_eq_none {value : String} (h : ¬ IsPadded value) :
    standardEnumNames.find? (·.toList == withoutDigits value) = none := by
  rw [List.find?_eq_none]
  intro name hname hrest
  exact h ⟨name, hname, (beq_iff_eq.mp hrest).symm⟩

/-! ## The suggestion -/

theorem Suggested.eq {value : String} {suggestion : Option String}
    (h : Suggested value suggestion) : suggestEnumValue? value = suggestion := by
  rw [suggestEnumValue?_eq_or]
  cases h with
  | @padded name standard rest =>
    rw [find?_padded_eq_some standard rest]
    cases hfind : enumCorrections.find? (·.1 == value) with
    | none => rfl
    | some e =>
      obtain ⟨hentry, rfl⟩ := mem_of_find?_enumCorrections hfind
      rw [← enumCorrections_padded e hentry name standard rest]
      rfl
  | corrected unpadded entry => rw [map_find?_enumCorrections_eq_some entry, Option.some_or]
  | @near before after name unpadded unknown split close first =>
    have hnear : standardEnumNames.find? (Near (withoutDigits value) ·) = some name := by
      refine List.find?_eq_some_iff_append.mpr ⟨decide_eq_true close, before, after, split, ?_⟩
      intro other hother
      simpa using first other hother
    rw [find?_enumCorrections_eq_none unknown, find?_padded_eq_none unpadded, hnear]
    rfl
  | nothing unknown far =>
    have hpadded : ¬ IsPadded value := by
      rintro ⟨name, hname, hrest⟩
      exact far name hname ⟨0, Nat.zero_le 2, Edits.zero_iff.mpr hrest⟩
    have hnear : standardEnumNames.find? (Near (withoutDigits value) ·) = none := by
      rw [List.find?_eq_none]
      intro name hname
      simpa using far name hname
    rw [find?_enumCorrections_eq_none unknown, find?_padded_eq_none hpadded, hnear]
    rfl

theorem exists_suggested (value : String) : ∃ suggestion, Suggested value suggestion := by
  by_cases hpadded : IsPadded value
  · obtain ⟨name, hname, hrest⟩ := hpadded
    exact ⟨_, .padded hname hrest⟩
  by_cases hknown : IsKnownSlip value
  · obtain ⟨⟨_, correction⟩, hentry, rfl⟩ := List.mem_map.mp hknown
    exact ⟨_, .corrected hpadded hentry⟩
  cases hfind : standardEnumNames.find? (Near (withoutDigits value) ·) with
  | none =>
    refine ⟨_, .nothing hknown fun name hname => ?_⟩
    simpa using List.find?_eq_none.mp hfind name hname
  | some name =>
    obtain ⟨hclose, before, after, hsplit, hfirst⟩ := List.find?_eq_some_iff_append.mp hfind
    refine ⟨_, .near hpadded hknown hsplit (of_decide_eq_true hclose) fun other hother => ?_⟩
    simpa using hfirst other hother

theorem suggestEnumValue?_eq_iff {value : String} {suggestion : Option String} :
    suggestEnumValue? value = suggestion ↔ Suggested value suggestion := by
  constructor
  · rintro rfl
    obtain ⟨suggestion, h⟩ := exists_suggested value
    rwa [h.eq]
  · exact Suggested.eq

theorem suggestEnumValue?_eq_none_iff {value : String} :
    suggestEnumValue? value = none ↔
      ¬ IsKnownSlip value ∧ ∀ name ∈ standardEnumNames, ¬ Near (withoutDigits value) name := by
  rw [suggestEnumValue?_eq_iff]
  constructor
  · rintro ⟨⟩
    exact ⟨‹_›, ‹_›⟩
  · rintro ⟨hunknown, hfar⟩
    exact .nothing hunknown hfar

/-! ## Short and long values -/

/-- Two characters can be turned into any two. -/
theorem near_of_length_le {text : List Char} {name : String} (h : text.length ≤ 2)
    (hname : name.toList.length ≤ 2) : Near text name :=
  near_iff.mpr (Nat.le_trans (editDistance_le_max _ _) (Nat.max_le.mpr ⟨h, hname⟩))

theorem Near.length_le {text : List Char} {name : String} (h : Near text name) :
    text.length ≤ name.toList.length + 2 := by
  obtain ⟨n, hn, hedits⟩ := h
  exact Nat.le_trans hedits.symm.length_le (Nat.add_le_add_left hn _)

theorem standardEnumNames_length_le : ∀ name ∈ standardEnumNames, name.toList.length ≤ 7 := by
  decide

theorem suggestEnumValue?_of_short {value : String} (h : (withoutDigits value).length ≤ 2) :
    (suggestEnumValue? value).isSome := by
  rw [← Option.ne_none_iff_isSome, Ne, suggestEnumValue?_eq_none_iff]
  rintro ⟨-, hfar⟩
  exact hfar "ID" (by decide) (near_of_length_le h (by decide))

theorem suggestEnumValue?_of_long {value : String} (h : 9 < (withoutDigits value).length)
    (hunknown : ¬ IsKnownSlip value) : suggestEnumValue? value = none := by
  refine suggestEnumValue?_eq_none_iff.mpr ⟨hunknown, fun name hname hnear => ?_⟩
  have hlength := hnear.length_le
  have hname := standardEnumNames_length_le name hname
  omega

/-- A value that is a standard name but for its digits gets that name, whatever the table
says; another one gets its correction; and one without a correction gets the first standard
name within two edits, or nothing if there is none. So nothing is too short for a suggestion,
and what is longer than nine characters gets one from the table only. -/
theorem suggestEnumValue?_priority (value : String) :
    (∀ suggestion, suggestEnumValue? value = suggestion ↔ Suggested value suggestion) ∧
    ((withoutDigits value).length ≤ 2 → (suggestEnumValue? value).isSome) ∧
    (9 < (withoutDigits value).length → ¬ IsKnownSlip value → suggestEnumValue? value = none) :=
  ⟨fun _ => suggestEnumValue?_eq_iff, suggestEnumValue?_of_short, suggestEnumValue?_of_long⟩

/-- A correction that no two edits would reach, a short value and a long one. -/
theorem suggestEnumValue?_priority_edges :
    suggestEnumValue? "BOOL1" = some "BOOLEAN" ∧ ¬ Near (withoutDigits "BOOL1") "BOOLEAN" ∧
    (withoutDigits "Q7").length ≤ 2 ∧ (suggestEnumValue? "Q7").isSome ∧
    9 < (withoutDigits "CUSTOMERID4").length ∧ ¬ IsKnownSlip "CUSTOMERID4" ∧
      suggestEnumValue? "CUSTOMERID4" = none := by
  have hslip := ((suggestEnumValue?_priority "BOOL1").1 (some "BOOLEAN")).mpr
    (.corrected (by decide) (by decide))
  have hshort := (suggestEnumValue?_priority "Q7").2.1 (by decide)
  have hlong := (suggestEnumValue?_priority "CUSTOMERID4").2.2 (by decide) (by decide)
  exact ⟨hslip, by decide, by decide, hshort, by decide, by decide, hlong⟩

end SchemaLint.Rule
