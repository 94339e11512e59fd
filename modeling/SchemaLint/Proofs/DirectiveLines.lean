import SchemaLint.Proofs.DirectiveVerdicts

/-!
# Composition errors on the lines of the source

The composition check reads a text without its comment lines and counts the lines of that
text. A diagnostic shows a line of the source instead: the one that was kept as that line,
on which the at sign of the directive is written.
-/

namespace SchemaLint

open Sdl Rule Federation Source Text

/-! ## Joined lines -/

namespace Source

theorem not_mem_chomp {l : List Char} (hl : '\n' ∉ l) : '\n' ∉ chomp (l ++ ['\n']) := by
  obtain ⟨ending, hending, heq⟩ := chomp_line l
  intro hmem
  apply hl
  rcases hending with rfl | rfl
  · rw [(List.append_inj' heq rfl).1]
    exact hmem
  · have hcut : l ++ ['\n'] = (chomp (l ++ ['\n']) ++ ['\r']) ++ ['\n'] := by
      rw [List.append_assoc]
      exact heq
    rw [(List.append_inj' hcut rfl).1]
    exact List.mem_append_left _ hmem

/-- A line has no line feed in it. -/
theorem not_mem_of_mem_lines {cs line : List Char} (h : line ∈ lines cs) : '\n' ∉ line := by
  induction cs using line_induction with
  | nil => cases h
  | last l hl hne =>
    rw [lines_last hl hne, List.mem_singleton] at h
    rw [h]
    exact hl
  | line l cs hl ih =>
    rw [lines_line hl, List.mem_cons] at h
    rcases h with rfl | h
    · exact not_mem_chomp hl
    · exact ih h

/-- A character of joined lines belongs to one of them, unless it joins two. -/
theorem exists_line_of_intercalate {ls : List (List Char)} {a b : List Char} {c : Char}
    (hc : c ≠ '\n') (h : List.intercalate ['\n'] ls = a ++ c :: b) :
    ∃ before column rest after, ls = before ++ (column ++ c :: rest) :: after ∧
      a = before.flatMap (· ++ ['\n']) ++ column := by
  induction ls generalizing a with
  | nil => simp at h
  | cons l ls ih =>
    cases ls with
    | nil =>
      rw [List.intercalate_singleton] at h
      exact ⟨[], a, b, [], by rw [h]; rfl, rfl⟩
    | cons next ls =>
      rw [List.intercalate_cons_cons, List.append_assoc] at h
      obtain ⟨x, rfl, hx⟩ | ⟨x, rfl, hx⟩ := List.append_eq_append_iff.mp h
      · -- The character lies behind the first line.
        cases x with
        | nil => exact absurd (List.cons.inj hx).1.symm hc
        | cons d x =>
          obtain ⟨rfl, hrest⟩ := List.cons.inj hx
          obtain ⟨before, column, rest, after, hls, rfl⟩ := ih hrest
          refine ⟨l :: before, column, rest, after, by rw [hls]; rfl, ?_⟩
          simp
      · cases x with
        | nil => exact absurd (List.cons.inj hx).1 hc
        | cons d x =>
          obtain ⟨rfl, -⟩ := List.cons.inj hx
          exact ⟨[], a, x, next :: ls, rfl, rfl⟩

theorem count_joined {ls : List (List Char)} (h : ∀ l ∈ ls, '\n' ∉ l) :
    (ls.flatMap (· ++ ['\n'])).count '\n' = ls.length := by
  induction ls with
  | nil => rfl
  | cons l ls ih =>
    rw [List.forall_mem_cons] at h
    rw [List.flatMap_cons, List.count_append, List.count_append, List.count_eq_zero.mpr h.1, ih h.2,
      List.length_cons]
    simp [Nat.add_comm]

/-- The lines that are kept when comment lines are left out, each with its number. -/
def numberedLines (source : String) : List (List Char × Nat) :=
  ((lines source.toList).zipIdx 1).filter fun p => !isCommentLine p.1

theorem map_fst_numberedLines (source : String) :
    (numberedLines source).map Prod.fst = keptLines source.toList := by
  have hfilter := List.filter_map (p := (!isCommentLine ·)) (f := Prod.fst)
    (l := (lines source.toList).zipIdx 1)
  rw [List.zipIdx_map_fst] at hfilter
  exact hfilter.symm

theorem map_snd_numberedLines (source : String) :
    (numberedLines source).map Prod.snd = keptLineNumbers source := by
  rw [numberedLines, keptLineNumbers]
  generalize (lines source.toList).zipIdx 1 = numbered
  induction numbered with
  | nil => rfl
  | cons p numbered ih =>
    rw [List.filter_cons, List.filterMap_cons, ← ih]
    obtain ⟨line, n⟩ := p
    dsimp only
    cases isCommentLine line <;> rfl

theorem mem_numberedLines {source : String} {line : List Char} {n : Nat}
    (h : (line, n) ∈ numberedLines source) :
    1 ≤ n ∧ (lines source.toList)[n - 1]? = some line ∧ isCommentLine line = false := by
  obtain ⟨hmem, hkept⟩ := List.mem_filter.mp h
  obtain ⟨hle, hline⟩ := List.mem_zipIdx_iff_le_and_getElem?_sub.mp hmem
  exact ⟨hle, hline, Bool.not_eq_true' _ ▸ hkept⟩

/-- Line `n` of the source is kept, and on it is written the at sign that stands at the offset
in the text without comment lines. -/
def AtSignOn (source : String) (offset n : Nat) (line : List Char) : Prop :=
  ∃ before column rest after, line = column ++ '@' :: rest ∧
    numberedLines source = before ++ (line, n) :: after ∧
    offset = byteLength (before.flatMap (·.1 ++ ['\n'])) + byteLength column

theorem AtSignOn.mem_numberedLines {source : String} {offset n : Nat} {line : List Char}
    (h : AtSignOn source offset n line) : (line, n) ∈ numberedLines source := by
  obtain ⟨before, _, _, after, -, hnumbered, -⟩ := h
  rw [hnumbered]
  exact List.mem_append_right _ List.mem_cons_self

theorem exists_atSignOn {source : String} {offset : Nat}
    (h : StandsAt (stripCommentLines source).toList ['@'] offset) :
    ∃ k n line, (LineIndex.ofText (stripCommentLines source)).lineOfOffset offset = k + 1 ∧
      (keptLineNumbers source)[k]? = some n ∧ AtSignOn source offset n line := by
  obtain ⟨a, b, htext, rfl⟩ := h
  have hline : (LineIndex.ofText (stripCommentLines source)).lineOfOffset (byteLength a) =
      a.count '\n' + 1 := by
    rw [← LineIndex.lineOfOffset_append a (['@'] ++ b), ← htext, String.ofList_toList]
  rw [toList_stripCommentLines, strip] at htext
  obtain ⟨before, column, rest, after, hlines, rfl⟩ :=
    exists_line_of_intercalate (by decide) htext
  have hclean : ∀ l ∈ keptLines source.toList, '\n' ∉ l :=
    fun l hl => not_mem_of_mem_lines (List.mem_of_mem_filter hl)
  rw [hlines, List.forall_mem_append, List.forall_mem_cons, List.mem_append, not_or] at hclean
  have hcount : (before.flatMap (· ++ ['\n']) ++ column).count '\n' = before.length := by
    rw [List.count_append, count_joined hclean.1, List.count_eq_zero.mpr hclean.2.1.1, Nat.add_zero]
  -- The same lines with their numbers.
  rw [← map_fst_numberedLines] at hlines
  obtain ⟨front, back, hnumbered, rfl, hback⟩ := List.map_eq_append_iff.mp hlines
  obtain ⟨⟨line, n⟩, back, rfl, rfl, -⟩ := List.map_eq_cons_iff.mp hback
  refine ⟨front.length, n, _, ?_, ?_, front, column, rest, back, rfl, hnumbered, ?_⟩
  · rw [hline, hcount, List.length_map]
  · rw [← map_snd_numberedLines, hnumbered, List.map_append, List.map_cons,
      ← List.length_map Prod.snd, List.getElem?_append_right (Nat.le_refl _), Nat.sub_self]
    rfl
  · rw [byteLength_append, List.flatMap_map]

end Source

theorem directive_mem_marks {ds : List Definition} {a : Application} (h : a ∈ applications ds) :
    Mark.directive a.directive.offset ∈ ds.flatMap Definition.marks := by
  obtain ⟨d, hd, ha⟩ := List.mem_flatMap.mp h
  refine List.mem_flatMap.mpr ⟨d, (List.mem_filter.mp hd).1, ?_⟩
  have hmarks : ∀ {xs : List Directive} {x : Directive}, x ∈ xs →
      Mark.directive x.offset ∈ xs.flatMap Directive.marks :=
    fun hx => List.mem_flatMap.mpr ⟨_, hx, List.mem_cons_self⟩
  rcases List.mem_append.mp ha with ha | ha
  · obtain ⟨x, hx, rfl⟩ := List.mem_map.mp ha
    exact List.mem_append_left _ (List.mem_append_right _ (hmarks hx))
  · obtain ⟨f, hf, ha⟩ := List.mem_flatMap.mp ha
    obtain ⟨x, hx, rfl⟩ := List.mem_map.mp ha
    refine d.fields_marks_sublist.subset (List.mem_flatMap.mpr ⟨f, hf, ?_⟩)
    exact List.mem_append_right _ (hmarks hx)

/-! ## Diagnostics -/

/-- What is said of the applications of directives, one thing after the other. -/
def verdicts (ds : List Definition) : List (Application × String) :=
  (applications ds).flatMap fun a => (a.messages ds).map (a, ·)

theorem composition_check_eq {path source : String}
    (h : (read (stripCommentLines source)).faults = []) :
    composition.check (.parse path source) =
      (verdicts (read (stripCommentLines source)).definitions).map fun v =>
        (SchemaDocument.parse path source).diagnostic composition.id
          ⟨keptLine (keptLineNumbers source)
            ((LineIndex.ofText (stripCommentLines source)).lineOfOffset v.1.directive.offset),
            v.2, none⟩ := by
  rw [Rule.check, SchemaDocument.diagnostics_eq_map, composition_findings, parse_source,
    compositionErrors_eq h, verdicts]
  simp only [List.map_flatMap, List.map_map, Application.errors, Function.comp_def]

/-- The diagnostic is on the line of the source where the directive is written. -/
structure Application.ShownBy (source : String) (a : Application) (d : Diagnostic) : Prop where
  inside : 1 ≤ d.line ∧ d.line ≤ (LineIndex.ofText source).lineCount
  /-- It is the line that was kept as the line of the error. -/
  kept : ∃ k, (LineIndex.ofText (stripCommentLines source)).lineOfOffset a.directive.offset =
    k + 1 ∧ (keptLineNumbers source)[k]? = some d.line
  written : ∃ line, AtSignOn source a.directive.offset d.line line ∧
    (lines source.toList)[d.line - 1]? = some line ∧ isCommentLine line = false ∧
    d.lineContent = String.ofList (trim line)

/-- If the text can be read without its comment lines, each thing that is said of an
application is one diagnostic, and it is on the line of the source where the at sign of that
application is written. -/
theorem composition_on_directive_lines (path : String) {source : String}
    (h : (read (stripCommentLines source)).faults = []) :
    List.Forall₂ (fun v d => d.text = v.2 ∧ v.1.ShownBy source d)
      (verdicts (read (stripCommentLines source)).definitions)
      (composition.check (.parse path source)) := by
  rw [composition_check_eq h, List.forall₂_map_right_iff, List.forall₂_same]
  intro v hv
  obtain ⟨a, ha, hmessage⟩ := List.mem_flatMap.mp hv
  obtain ⟨message, -, rfl⟩ := List.mem_map.mp hmessage
  have hstands : StandsAt (stripCommentLines source).toList ['@'] a.directive.offset :=
    standsAt_of_directive_mem_read_marks (droppedBytes_eq_zero_of_readable h)
      (directive_mem_marks ha)
  obtain ⟨k, n, line, hk, hn, hat⟩ := exists_atSignOn hstands
  have hkept : keptLine (keptLineNumbers source) (k + 1) = n := by
    rw [keptLine, hn]
    rfl
  obtain ⟨hpos, hline, hcomment⟩ := mem_numberedLines hat.mem_numberedLines
  have hmem : (SchemaDocument.parse path source).diagnostic composition.id ⟨n, message, none⟩ ∈
      (SchemaDocument.parse path source).diagnostics composition.id [⟨n, message, none⟩] := by
    rw [SchemaDocument.diagnostics_eq_map]
    exact List.mem_cons_self
  dsimp only
  rw [hk, hkept]
  refine ⟨text_make (by decide) _ _ _ _ _, ⟨hpos, ?_⟩, ⟨k, hk, hn⟩, line, hat, hline, hcomment, ?_⟩
  · rw [lineCount_ofText]
    exact le_of_mem_keptLineNumbers (List.mem_of_getElem? hn)
  · exact (showsLine_of_mem_diagnostics hmem).line line hpos hline

/-- A key without arguments on the fourth line, two of the lines above it comments. -/
def keyBelowNotes : String :=
  "// shelves\r\ntype Shelf\r\n  // no fields yet\r\n  @key \x7b\r\n  id: ID\r\n\x7d"

theorem composition_on_directive_lines_keyBelowNotes :
    (read (stripCommentLines keyBelowNotes)).faults = [] ∧
      ∃ d, composition.check (.parse "shelf.graphql" keyBelowNotes) = [d] ∧ d.line = 4 ∧
        d.lineContent = "@key \x7b" := by
  have hreadable : (read (stripCommentLines keyBelowNotes)).faults = [] :=
    (read_faults_eq_nil_iff _).mpr (by decide +kernel)
  have hverdicts : verdicts (read (stripCommentLines keyBelowNotes)).definitions =
      [(⟨"Shelf", none, ⟨"key", [], 13⟩⟩,
        "@key on 'Shelf' must have a string 'fields' argument.")] := by decide +kernel
  have hshown := composition_on_directive_lines "shelf.graphql" hreadable
  rw [hverdicts, List.forall₂_cons_left_iff] at hshown
  obtain ⟨d, rest, hd, hrest, hcheck⟩ := hshown
  rw [List.forall₂_nil_left_iff] at hrest
  rw [hrest] at hcheck
  obtain ⟨k, hk, hkept⟩ := hd.2.kept
  obtain ⟨line, -, hline, -, hcontent⟩ := hd.2.written
  obtain rfl : k = 1 := by
    have hsecond : (LineIndex.ofText (stripCommentLines keyBelowNotes)).lineOfOffset 13 = 2 := by
      decide +kernel
    exact Nat.succ.inj (hk.symm.trans hsecond)
  have hfour : d.line = 4 := by
    have hnumbers : (keptLineNumbers keyBelowNotes)[1]? = some 4 := by decide +kernel
    exact Option.some.inj (hkept.symm.trans hnumbers)
  rw [hfour] at hline
  have htext : (lines keyBelowNotes.toList)[3]? = some "  @key \x7b".toList := by decide +kernel
  obtain rfl : line = "  @key \x7b".toList := Option.some.inj (hline.symm.trans htext)
  refine ⟨hreadable, d, hcheck, hfour, ?_⟩
  rw [hcontent]
  decide +kernel

end SchemaLint
