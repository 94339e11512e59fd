import SchemaLint.Proofs.CleanSchema
import SchemaLint.Proofs.Sdl.Thickening

/-!
# Blanks in block strings

The value of a block string is its text with the indent and the blank lines at both ends
taken off. None but blanks are lost in this, the backslash of an escaped quote apart, so
the first character that is not blank can be told from the text. Whether a description
starts with a capital depends on nothing else.
-/

namespace SchemaLint.Sdl

open Text

theorem ink_eq_nil {cs : List Char} (h : ∀ c ∈ cs, isBlank c = true) : ink cs = [] :=
  List.filter_eq_nil_iff.mpr fun c hc => by simp [h c hc]

theorem ink_cons (c : Char) (cs : List Char) : ink (c :: cs) = ink [c] ++ ink cs :=
  ink_append [c] cs

theorem ink_cons_of_isBlank {c : Char} (h : isBlank c = true) (cs : List Char) :
    ink (c :: cs) = ink cs := by
  rw [ink_cons, ink_eq_nil (by simpa using h), List.nil_append]

theorem isBlank_of_isIndent {c : Char} (h : isIndent c = true) : isBlank c = true := by
  simp only [isIndent, Bool.or_eq_true, beq_iff_eq] at h
  rcases h with rfl | rfl <;> rfl

theorem ink_of_all_isIndent {l : List Char} (h : l.all isIndent = true) : ink l = [] :=
  ink_eq_nil fun c hc => isBlank_of_isIndent (List.all_eq_true.mp h c hc)

/-! ## Lines -/

theorem flatMap_ink_blockLines (cs : List Char) : (blockLines cs).flatMap ink = ink cs := by
  fun_induction blockLines cs with
  | case1 => rfl
  | case2 cs ih => exact ih
  | case3 c cs _ hbreak ih =>
    have hblank : isBlank c = true := by
      simp only [Bool.or_eq_true, beq_iff_eq] at hbreak
      rcases hbreak with rfl | rfl <;> rfl
    rw [ink_cons_of_isBlank hblank, ← ih]
    rfl
  | case4 c cs _ _ hnil ih =>
    rw [hnil] at ih
    rw [ink_cons, ← ih]
    rfl
  | case5 c cs _ _ l ls hls ih =>
    rw [hls, List.flatMap_cons] at ih
    rw [ink_cons c cs, ← ih, List.flatMap_cons, ink_cons c l, List.append_assoc]

theorem ink_intercalate (ls : List (List Char)) :
    ink (List.intercalate ['\n'] ls) = ls.flatMap ink := by
  induction ls with
  | nil => rfl
  | cons l ls ih =>
    cases ls with
    | nil => rw [List.intercalate_singleton, List.flatMap_singleton]
    | cons l' ls =>
      rw [List.intercalate_cons_cons, ink_append, ink_append, ih, List.flatMap_cons,
        List.append_assoc]
      rfl

/-- Lines of white space show nothing, in any order. -/
theorem flatMap_ink_eq_nil {ls : List (List Char)} (h : ∀ l ∈ ls, l.all isIndent = true) :
    ls.flatMap ink = [] :=
  List.flatMap_eq_nil_iff.mpr fun l hl => ink_of_all_isIndent (h l hl)

theorem flatMap_ink_dropBlankEnds (ls : List (List Char)) :
    (dropBlankEnds ls).flatMap ink = ls.flatMap ink := by
  have hblank : ∀ ls : List (List Char), ∀ l ∈ ls.takeWhile (·.all isIndent),
      l.all isIndent = true := fun _ => List.all_eq_true.mp List.all_takeWhile
  have hfront : ls.flatMap ink = (ls.dropWhile (·.all isIndent)).flatMap ink := by
    conv_lhs => rw [← List.takeWhile_append_dropWhile (p := (·.all isIndent)) (l := ls)]
    rw [List.flatMap_append, flatMap_ink_eq_nil (hblank ls), List.nil_append]
  rw [hfront, dropBlankEnds]
  generalize ls.dropWhile (·.all isIndent) = ls
  have hback : ls = (ls.reverse.dropWhile (·.all isIndent)).reverse ++
      (ls.reverse.takeWhile (·.all isIndent)).reverse := by
    rw [← List.reverse_append, List.takeWhile_append_dropWhile, List.reverse_reverse]
  conv_rhs => rw [hback]
  rw [List.flatMap_append, flatMap_ink_eq_nil fun l hl => hblank _ l (List.mem_reverse.mp hl),
    List.append_nil]

/-! ## Indent -/

def indentOf (l : List Char) : Nat := (l.takeWhile isIndent).length

/-- The lesser of an indent, if there is one yet, and that of a line. -/
def lesserIndent (least : Option Nat) (l : List Char) : Option Nat :=
  some (least.elim (indentOf l) (min · (indentOf l)))

theorem commonIndent_eq_foldl (ls : List (List Char)) :
    commonIndent ls = (ls.filter fun l => !l.all isIndent).foldl lesserIndent none := by
  unfold commonIndent
  congr 1
  funext least l
  cases least <;> rfl

theorem exists_mem_lesserIndent {least : Option Nat} {l : List Char} {n : Nat}
    (h : n ∈ least ∨ indentOf l = n) : ∃ m ≤ n, m ∈ lesserIndent least l := by
  cases least with
  | none => exact ⟨indentOf l, by simpa using h.elim nofun Nat.le_of_eq, rfl⟩
  | some k =>
    refine ⟨min k (indentOf l), ?_, rfl⟩
    obtain h | h := h
    · obtain rfl := Option.some.inj h
      exact Nat.min_le_left _ _
    · exact h ▸ Nat.min_le_right _ _

theorem foldl_lesserIndent_le (ls : List (List Char)) (least : Option Nat) {n : Nat}
    (h : n ∈ least ∨ ∃ l ∈ ls, indentOf l = n) :
    ∃ m ≤ n, m ∈ ls.foldl lesserIndent least := by
  induction ls generalizing least n with
  | nil =>
    obtain h | ⟨_, h, -⟩ := h
    · exact ⟨n, Nat.le_refl n, h⟩
    · cases h
  | cons l ls ih =>
    rw [List.foldl_cons]
    by_cases hrest : ∃ l ∈ ls, indentOf l = n
    · exact ih _ (.inr hrest)
    · have hfirst : n ∈ least ∨ indentOf l = n := by simpa [or_and_right, exists_or, hrest] using h
      obtain ⟨k, hk, hmem⟩ := exists_mem_lesserIndent hfirst
      obtain ⟨m, hm, hfold⟩ := ih _ (.inl hmem)
      exact ⟨m, Nat.le_trans hm hk, hfold⟩

theorem commonIndent_le {ls : List (List Char)} {l : List Char} (hl : l ∈ ls)
    (hink : l.all isIndent = false) : (commonIndent ls).getD 0 ≤ indentOf l := by
  have hmem : l ∈ ls.filter fun l => !l.all isIndent :=
    List.mem_filter.mpr ⟨hl, by rw [hink]; rfl⟩
  obtain ⟨m, hm, hfold⟩ := foldl_lesserIndent_le _ none (.inr ⟨l, hmem, rfl⟩)
  rw [commonIndent_eq_foldl, Option.mem_def.mp hfold]
  exact hm

theorem ink_drop_commonIndent {ls : List (List Char)} {l : List Char} (hl : l ∈ ls) :
    ink (l.drop ((commonIndent ls).getD 0)) = ink l := by
  have hblank : ink (l.take ((commonIndent ls).getD 0)) = [] := by
    refine ink_eq_nil fun c hc => isBlank_of_isIndent ?_
    by_cases hink : l.all isIndent = true
    · exact List.all_eq_true.mp hink c (List.mem_of_mem_take hc)
    · have hle := commonIndent_le hl (Bool.not_eq_true _ ▸ hink)
      have hfront : l.take ((commonIndent ls).getD 0) <+: l.takeWhile isIndent :=
        List.prefix_of_prefix_length_le (List.take_prefix _ _) (List.takeWhile_prefix _)
          (Nat.le_trans (List.length_take_le _ _) hle)
      exact List.all_eq_true.mp List.all_takeWhile c (hfront.subset hc)
  have hsplit := ink_append (l.take ((commonIndent ls).getD 0)) (l.drop ((commonIndent ls).getD 0))
  rw [List.take_append_drop, hblank, List.nil_append] at hsplit
  exact hsplit.symm

theorem ink_blockValue (raw : List Char) : ink (blockValue raw) = ink (unescapeQuotes raw) := by
  rw [blockValue, ink_intercalate, flatMap_ink_dropBlankEnds, List.flatMap_append,
    ← flatMap_ink_blockLines (unescapeQuotes raw)]
  generalize blockLines (unescapeQuotes raw) = ls
  cases ls with
  | nil => rfl
  | cons l ls =>
    rw [List.flatMap_map, List.flatMap_cons, List.tail_cons]
    exact congrArg₂ _ (List.flatMap_singleton _ _)
      (List.flatMap_congr fun l hl => ink_drop_commonIndent hl)

/-! ## Capitals -/

/-- The first character that is not blank is a capital. -/
def startsCapital (cs : List Char) : Bool := (ink cs).head?.all isUppercase

/-- An escaped quote is no capital, with or without its backslash. -/
theorem startsCapital_unescapeQuotes (cs : List Char) :
    startsCapital (unescapeQuotes cs) = startsCapital cs := by
  fun_induction unescapeQuotes cs with
  | case1 cs ih => rfl
  | case2 c cs _ ih =>
    by_cases hc : isBlank c = true
    · rw [startsCapital, startsCapital, ink_cons_of_isBlank hc, ink_cons_of_isBlank hc]
      exact ih
    · have hink : ∀ cs, ink (c :: cs) = c :: ink cs :=
        fun cs => List.filter_cons_of_pos (by simpa using hc)
      rw [startsCapital, startsCapital, hink, hink]
      rfl
  | case3 => rfl

theorem isCapitalized_eq_startsCapital (text : String) :
    isCapitalized text = startsCapital text.toList := by
  rw [isCapitalized, startsCapital, ink, List.head?_filter, ← head?_trim]
  cases trim text.toList <;> rfl

theorem isCapitalized_blockString (inside : List Char) :
    isCapitalized (stringValue (String.ofList (['"', '"', '"'] ++ inside ++ ['"', '"', '"']))) =
      startsCapital inside := by
  have hinside : (inside ++ ['"', '"', '"']).take ((inside ++ ['"', '"', '"']).length - 3) =
      inside := by
    rw [List.length_append, List.length_cons, List.length_cons, List.length_singleton,
      Nat.add_sub_cancel, List.take_left]
  have hvalue : stringValue (String.ofList (['"', '"', '"'] ++ inside ++ ['"', '"', '"'])) =
      String.ofList (blockValue inside) := by
    rw [stringValue, String.toList_ofList]
    exact congrArg (fun cs => String.ofList (blockValue cs)) hinside
  rw [hvalue, isCapitalized_eq_startsCapital, String.toList_ofList, startsCapital, ink_blockValue,
    ← startsCapital, startsCapital_unescapeQuotes]

/-- Blanks have no say in whether a description is capitalized. -/
theorem SameString.isCapitalized_eq {a b : List Char} (h : SameString a b) :
    isCapitalized (stringValue (String.ofList a)) =
      isCapitalized (stringValue (String.ofList b)) := by
  obtain rfl | ⟨inside, inside', rfl, rfl, hink⟩ := h
  · rfl
  · rw [isCapitalized_blockString, isCapitalized_blockString, startsCapital, startsCapital, hink]

end SchemaLint.Sdl
