import SchemaLint.Proofs.DirectiveLines
import SchemaLint.Proofs.LineNumbers

/-!
# Lines that are kept

Leaving out comment lines and listing the numbers of the others are two filters over the
lines of a text, and they stay in step. The lines that are joined again need not be cut as
they were: a carriage return at the end of one becomes part of its line end, and an empty
one at the very end is no line. Neither shows once the blanks around lines are taken off,
so lines are compared without them.
-/

namespace SchemaLint.Source

open Text

/-! ## Numbers -/

theorem keptLineNumbers_sublist (source : String) :
    (keptLineNumbers source).Sublist (List.range' 1 (lines source.toList).length) := by
  rw [← map_snd_numberedLines, ← List.zipIdx_map_snd, numberedLines]
  exact List.filter_sublist.map _

theorem mem_keptLineNumbers_iff {source : String} {n : Nat} :
    n ∈ keptLineNumbers source ↔
      1 ≤ n ∧ ∃ line, (lines source.toList)[n - 1]? = some line ∧ isCommentLine line = false := by
  rw [← map_snd_numberedLines]
  constructor
  · intro h
    obtain ⟨⟨line, number⟩, hmem, rfl⟩ := List.mem_map.mp h
    obtain ⟨hpos, hline, hkept⟩ := mem_numberedLines hmem
    exact ⟨hpos, line, hline, hkept⟩
  · rintro ⟨hpos, line, hline, hkept⟩
    have hmem : (line, n) ∈ (lines source.toList).zipIdx 1 :=
      List.mem_zipIdx_iff_le_and_getElem?_sub.mpr ⟨hpos, hline⟩
    refine List.mem_map.mpr ⟨(line, n), List.mem_filter.mpr ⟨hmem, ?_⟩, rfl⟩
    rw [hkept]
    rfl

/-! ## Blanks at the end of a line -/

theorem isBlank_of_mem_ending {ending : List Char} (h : IsEnding ending) {c : Char}
    (hc : c ∈ ending) : isBlank c = true := by
  have hfeed : isBlank '\n' = true := by decide
  have hreturn : isBlank '\r' = true := by decide
  rcases h with rfl | rfl
  · rwa [List.mem_singleton.mp hc]
  · rcases List.mem_pair.mp hc with rfl | rfl
    · exact hreturn
    · exact hfeed

theorem trim_append_blanks {q e : List Char} (he : ∀ c ∈ e, isBlank c = true) :
    trim (q ++ e) = trim q := by
  have hend : ∀ x, trimEnd (x ++ e) = trimEnd x := by
    intro x
    have hreverse : ∀ c ∈ e.reverse, isBlank c = true := fun c hc => he c (List.mem_reverse.mp hc)
    rw [trimEnd, List.reverse_append, List.dropWhile_append_of_pos hreverse, trimEnd]
  rw [trim, trim, trimStart, trimStart, List.dropWhile_append]
  split
  · next hempty =>
    rw [List.isEmpty_iff.mp hempty, List.dropWhile_eq_nil_iff.mpr he]
  · exact hend _

/-- Where a line is cut off shows only in blanks. -/
theorem trim_chomp (l : List Char) : trim (chomp (l ++ ['\n'])) = trim l := by
  obtain ⟨ending, hending, hline⟩ := chomp_line l
  calc trim (chomp (l ++ ['\n']))
      = trim (chomp (l ++ ['\n']) ++ ending) :=
        (trim_append_blanks fun _ => isBlank_of_mem_ending hending).symm
    _ = trim (l ++ ['\n']) := by rw [← hline]
    _ = trim l := trim_append_blanks fun _ => isBlank_of_mem_ending (.inl rfl)

/-! ## Lines that are joined -/

section Joined

variable {ls : List (List Char)} (h : ∀ l ∈ ls, '\n' ∉ l)
include h

/-- Joined lines are cut where they were joined. Only an empty line at the end is lost. -/
theorem map_trim_lines_intercalate :
    ∃ n ≤ 1, ls.map trim =
      (lines (List.intercalate ['\n'] ls)).map trim ++ List.replicate n [] := by
  induction ls with
  | nil => exact ⟨0, Nat.zero_le 1, rfl⟩
  | cons l ls ih =>
    rw [List.forall_mem_cons] at h
    cases ls with
    | nil =>
      rw [List.intercalate_singleton]
      by_cases hne : l = []
      · exact ⟨1, Nat.le_refl 1, by rw [hne]; rfl⟩
      · refine ⟨0, Nat.zero_le 1, ?_⟩
        rw [lines_last h.1 hne, List.replicate_zero, List.append_nil]
    | cons next ls =>
      obtain ⟨n, hn, hrest⟩ := ih h.2
      refine ⟨n, hn, ?_⟩
      rw [List.intercalate_cons_cons, List.append_assoc, List.singleton_append, lines_line h.1,
        List.map_cons (l := next :: ls), hrest, List.map_cons, trim_chomp, List.cons_append]

theorem isCommentLine_of_mem_lines_intercalate (hkept : ∀ l ∈ ls, isCommentLine l = false)
    {line : List Char} (hline : line ∈ lines (List.intercalate ['\n'] ls)) :
    isCommentLine line = false := by
  induction ls with
  | nil => cases hline
  | cons l ls ih =>
    rw [List.forall_mem_cons] at h hkept
    cases ls with
    | nil =>
      rw [List.intercalate_singleton] at hline
      by_cases hne : l = []
      · rw [hne] at hline
        cases hline
      · rw [lines_last h.1 hne, List.mem_singleton] at hline
        exact hline ▸ hkept.1
    | cons next ls =>
      rw [List.intercalate_cons_cons, List.append_assoc, List.singleton_append, lines_line h.1,
        List.mem_cons] at hline
      rcases hline with rfl | hline
      · rw [isCommentLine_chomp, hkept.1]
      · exact ih h.2 hkept.2 hline

theorem count_intercalate : (List.intercalate ['\n'] ls).count '\n' = ls.length - 1 := by
  induction ls with
  | nil => rfl
  | cons l ls ih =>
    rw [List.forall_mem_cons] at h
    cases ls with
    | nil => rw [List.intercalate_singleton, List.count_eq_zero.mpr h.1]; rfl
    | cons next ls =>
      rw [List.intercalate_cons_cons, List.count_append, List.count_append, ih h.2,
        List.count_eq_zero.mpr h.1, List.count_singleton_self]
      simp only [List.length_cons]
      omega

end Joined

theorem contentOf_eq_getD (ls : List (List Char)) (n : Nat) :
    contentOf ls (n + 1) = String.ofList ((ls.map trim).getD n []) := by
  rw [contentOf, List.getD_eq_getElem?_getD, List.getElem?_map]
  cases ls[n]? <;> rfl

/-- Empty lines at the end do not show: there is nothing on them, nor behind them. -/
theorem getD_append_replicate (xs : List (List Char)) (m n : Nat) :
    (xs ++ List.replicate m []).getD n [] = xs.getD n [] := by
  rw [List.getD_eq_getElem?_getD, List.getD_eq_getElem?_getD, List.getElem?_append]
  split
  · rfl
  · next hlt =>
    rw [List.getElem?_replicate, List.getElem?_eq_none (Nat.le_of_not_lt hlt)]
    split <;> rfl

/-! ## The text without comment lines -/

theorem not_mem_of_mem_keptLines {cs l : List Char} (h : l ∈ keptLines cs) : '\n' ∉ l :=
  not_mem_of_mem_lines (List.mem_of_mem_filter h)

theorem isCommentLine_of_mem_strip {cs line : List Char} (h : line ∈ lines (strip cs)) :
    isCommentLine line = false := by
  refine isCommentLine_of_mem_lines_intercalate (fun _ => not_mem_of_mem_keptLines)
    (fun l hl => ?_) h
  simpa using (List.mem_filter.mp hl).2

/-- What is shown of a line of the shorter text is what is shown of the line that was kept. -/
theorem lineContent_stripCommentLines {source : String} {k n : Nat}
    (h : (keptLineNumbers source)[k]? = some n) :
    lineContent (stripCommentLines source) (k + 1) = lineContent source n := by
  rw [← map_snd_numberedLines, List.getElem?_map, Option.map_eq_some_iff] at h
  obtain ⟨⟨line, number⟩, hentry, rfl⟩ := h
  obtain ⟨hpos, hline, -⟩ := mem_numberedLines (List.mem_of_getElem? hentry)
  have hkept : (keptLines source.toList)[k]? = some line := by
    rw [← map_fst_numberedLines, List.getElem?_map, hentry]
    rfl
  obtain ⟨m, -, hcut⟩ := map_trim_lines_intercalate
    fun l (hl : l ∈ keptLines source.toList) => not_mem_of_mem_keptLines hl
  calc lineContent (stripCommentLines source) (k + 1)
      = String.ofList (((lines (strip source.toList)).map trim).getD k []) := by
        rw [lineContent, toList_stripCommentLines, contentOf_eq_getD]
    _ = String.ofList (((keptLines source.toList).map trim).getD k []) := by
        rw [hcut, getD_append_replicate, strip]
    _ = String.ofList (trim line) := by
        rw [List.getD_eq_getElem?_getD, List.getElem?_map, hkept]
        rfl
    _ = lineContent source number := by
        rw [← lineContent_of_line hline, Nat.sub_add_cancel hpos]

theorem lineCount_stripCommentLines (source : String) :
    (LineIndex.ofText (stripCommentLines source)).lineCount =
      max 1 (keptLineNumbers source).length := by
  have hlength : (keptLineNumbers source).length = (keptLines source.toList).length := by
    rw [← map_snd_numberedLines, ← map_fst_numberedLines, List.length_map, List.length_map]
  rw [lineCount_ofText, toList_stripCommentLines, strip,
    count_intercalate fun _ => not_mem_of_mem_keptLines, hlength]
  omega

/-- Where no line is a comment line, none is left out. -/
theorem map_trim_lines_strip {cs : List Char} (h : ∀ line ∈ lines cs, isCommentLine line = false) :
    ∃ n ≤ 1, (lines cs).map trim = (lines (strip cs)).map trim ++ List.replicate n [] := by
  have hall : keptLines cs = lines cs :=
    List.filter_eq_self.mpr fun line hline => by rw [h line hline]; rfl
  rw [strip, hall]
  exact map_trim_lines_intercalate fun _ => not_mem_of_mem_lines

/-- A text is what is left of another without its comment lines, and `kept` are the numbers
that its lines had. -/
structure Keeps (source : String) (kept : List Nat) (rest : String) : Prop where
  increasing : kept.Pairwise (· < ·)
  numbers : ∀ n, n ∈ kept ↔
    1 ≤ n ∧ ∃ line, (lines source.toList)[n - 1]? = some line ∧ isCommentLine line = false
  /-- The index opens a line for every number, and one for no text at all. -/
  lineCount : (LineIndex.ofText rest).lineCount = max 1 kept.length
  content : ∀ k n, kept[k]? = some n → lineContent rest (k + 1) = lineContent source n
  uncommented : ∀ line ∈ lines rest.toList, isCommentLine line = false
  /-- There is nothing more to leave out, but an empty line at the end gets lost. -/
  again : ∃ n ≤ 1, (lines rest.toList).map trim =
    (lines (stripCommentLines rest).toList).map trim ++ List.replicate n []

/-- The two ways to leave out comment lines agree on every line, however it ends. -/
theorem stripCommentLines_keeps_lines (source : String) :
    Keeps source (keptLineNumbers source) (stripCommentLines source) where
  increasing := (List.pairwise_lt_range' 1 Nat.one_pos).sublist (keptLineNumbers_sublist source)
  numbers _ := mem_keptLineNumbers_iff
  lineCount := lineCount_stripCommentLines source
  content _ _ := lineContent_stripCommentLines
  uncommented line hline := by
    rw [toList_stripCommentLines] at hline
    exact isCommentLine_of_mem_strip hline
  again := by
    rw [toList_stripCommentLines (stripCommentLines source), toList_stripCommentLines]
    exact map_trim_lines_strip fun _ => isCommentLine_of_mem_strip

example : stripCommentLines "a\r\r\n //\nb\r\n\n" = "a\r\nb\n" ∧
    keptLineNumbers "a\r\r\n //\nb\r\n\n" = [1, 3, 4] := by decide +kernel

end SchemaLint.Source
