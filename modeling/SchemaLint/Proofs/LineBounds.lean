import SchemaLint.Lint
import SchemaLint.Proofs.DocumentOrder

/-!
# Diagnostics on lines of the text

A line number comes into a diagnostic in one of four ways: from the offset of a name or
a directive, from a search in the text, from the numbers of the lines that are kept when
comment lines are left out, and from the count of line breaks before a syntax error. The
first three never lead past the last line. The last one counts breaks of every kind, so a
lone carriage return can put a syntax error behind the last line; where every break is a
line feed, it cannot.
-/

namespace SchemaLint

open Sdl Source Text Rule Federation

/-! ## Counting lines -/

theorem length_startsFrom (position : Nat) (cs : List Char) :
    (LineIndex.startsFrom position cs).length = cs.count '\n' := by
  induction cs generalizing position with
  | nil => rfl
  | cons c cs ih =>
    rw [LineIndex.startsFrom]
    by_cases hc : c = '\n'
    · rw [if_pos hc, List.length_cons, ih, hc, List.count_cons_self]
    · rw [if_neg hc, ih, List.count_cons_of_ne hc]

theorem lineCount_ofText (text : String) :
    (LineIndex.ofText text).lineCount = text.toList.count '\n' + 1 := by
  rw [LineIndex.lineCount, LineIndex.ofText, List.length_cons, length_startsFrom]

theorem parse_lineCount (path source : String) :
    (SchemaDocument.parse path source).lineCount = source.toList.count '\n' + 1 := by
  rw [← lineCount_ofText]
  unfold SchemaDocument.lineCount SchemaDocument.parse
  dsimp only

theorem lineOfOffset_eq (doc : SchemaDocument) (offset : Nat) :
    doc.lineOfOffset offset = (LineIndex.ofText doc.source).lineOfOffset offset := by
  rw [SchemaDocument.lineOfOffset, doc.lineIndex_eq]

theorem one_le_lineOfOffset (doc : SchemaDocument) (offset : Nat) :
    1 ≤ doc.lineOfOffset offset := by
  rw [lineOfOffset_eq, LineIndex.lineOfOffset, LineIndex.ofText,
    List.countP_cons_of_pos (by simp)]
  exact Nat.le_add_left 1 _

theorem lineOfOffset_le (doc : SchemaDocument) (offset : Nat) :
    doc.lineOfOffset offset ≤ doc.lineCount :=
  List.countP_le_length

/-- A line feed at the very end closes a line and opens none. -/
theorem length_lines_le (cs : List Char) : (lines cs).length ≤ cs.count '\n' + 1 := by
  induction cs using line_induction with
  | nil => exact Nat.zero_le _
  | last l hl hne =>
    rw [lines_last hl hne]
    exact Nat.le_add_left 1 _
  | line l cs hl ih =>
    rw [lines_line hl, List.length_cons, List.count_append, List.count_cons_self]
    omega

/-! ## Lines found by a search -/

theorem firstLine_le (source : String) (test : List Char → Bool) :
    firstLine source test ≤ source.toList.count '\n' + 1 := by
  unfold firstLine
  split
  · next index hindex =>
    have hlt := (List.findIdx?_eq_some_iff_findIdx_eq.mp hindex).1
    have hle := length_lines_le source.toList
    omega
  · exact Nat.zero_le _

theorem lineOf_le (source literal : String) :
    lineOf source literal ≤ source.toList.count '\n' + 1 := by
  unfold lineOf
  split
  · exact Nat.le_add_left 1 _
  · exact firstLine_le source _

theorem firstFound_le {bound : Nat} {ns : List Nat} (h : ∀ n ∈ ns, n ≤ bound) :
    firstFound ns ≤ bound := by
  fun_induction firstFound ns with
  | case1 => exact Nat.zero_le _
  | case2 rest ih => exact ih fun n hn => h n (List.mem_cons_of_mem _ hn)
  | case3 n rest => exact h n List.mem_cons_self

theorem referenceLine_le (source name base : String) :
    referenceLine source name base ≤ source.toList.count '\n' + 1 := by
  refine firstFound_le fun n hn => ?_
  simp only [List.mem_cons, List.not_mem_nil, or_false] at hn
  rcases hn with rfl | rfl | rfl
  · exact firstLine_le source _
  · exact lineOf_le source _
  · exact lineOf_le source _

/-! ## Lines that are kept -/

theorem le_of_mem_keptLineNumbers {source : String} {n : Nat} (h : n ∈ keptLineNumbers source) :
    n ≤ source.toList.count '\n' + 1 := by
  obtain ⟨⟨line, number⟩, hmem, hkept⟩ := List.mem_filterMap.mp h
  have hnumber := (List.mem_zipIdx hmem).2.1
  have hle := length_lines_le source.toList
  dsimp only at hkept
  split at hkept
  · cases hkept
  · obtain rfl := Option.some.inj hkept
    omega

/-- A line that is left out has no number, and stands for an unknown place. -/
theorem keptLine_le (source : String) (n : Nat) :
    keptLine (keptLineNumbers source) n ≤ source.toList.count '\n' + 1 := by
  cases n with
  | zero => exact Nat.zero_le _
  | succ n =>
    rw [keptLine]
    cases hget : (keptLineNumbers source)[n]? with
    | none => exact Nat.zero_le _
    | some number => exact le_of_mem_keptLineNumbers (List.mem_of_getElem? hget)

/-! ## Line breaks of every kind -/

/-- Every line break is a line feed, perhaps with a carriage return before it. -/
def PlainBreaks (cs : List Char) : Prop :=
  ∀ a c b, cs = a ++ c :: b → isBreak c = true → c = '\n' ∨ c = '\r' ∧ b.head? = some '\n'

theorem plainBreaks_cons {c : Char} {cs : List Char} : PlainBreaks (c :: cs) ↔
    (isBreak c = true → c = '\n' ∨ c = '\r' ∧ cs.head? = some '\n') ∧ PlainBreaks cs := by
  constructor
  · intro h
    refine ⟨h [] c cs rfl, ?_⟩
    rintro a d b rfl
    exact h (c :: a) d b rfl
  · rintro ⟨hc, hcs⟩ a d b heq
    cases a with
    | nil =>
      obtain ⟨rfl, rfl⟩ := List.cons.inj heq
      exact hc
    | cons e a =>
      obtain ⟨rfl, rfl⟩ := List.cons.inj heq
      exact hcs a d b rfl

instance decidablePlainBreaks : DecidablePred PlainBreaks
  | [] => isTrue fun a c b h => absurd h.symm (List.append_ne_nil_of_right_ne_nil a (by simp))
  | c :: cs =>
    have := decidablePlainBreaks cs
    decidable_of_iff _ plainBreaks_cons.symm

theorem length_breakStartsFrom_le {cs : List Char} (h : PlainBreaks cs) (position : Nat) :
    (breakStartsFrom position cs).length ≤ cs.count '\n' := by
  fun_induction breakStartsFrom position cs with
  | case1 => exact Nat.le_refl 0
  | case2 position cs _ => exact Nat.zero_le _
  | case3 position cs _ ih =>
    rw [List.count_cons_of_ne (by decide), List.count_cons_self, List.length_cons]
    exact Nat.succ_le_succ (ih (plainBreaks_cons.mp (plainBreaks_cons.mp h).2).2)
  | case4 position c cs hpair next hbreak ih =>
    rw [Bool.and_eq_true] at hbreak
    obtain rfl | ⟨rfl, hhead⟩ := (plainBreaks_cons.mp h).1 hbreak.1
    · rw [List.count_cons_self, List.length_cons]
      exact Nat.succ_le_succ (ih (plainBreaks_cons.mp h).2)
    · cases cs with
      | nil => cases hhead
      | cons d cs =>
        obtain rfl : d = '\n' := Option.some.inj hhead
        exact absurd rfl (hpair cs rfl)
  | case5 position c cs hpair next hbreak ih =>
    exact Nat.le_trans (ih (plainBreaks_cons.mp h).2) List.count_le_count_cons

theorem count_lineFeed_blankOut_le (piece : List Char) :
    (blankOut piece).count '\n' ≤ piece.count '\n' := by
  have hends : (piece.reverse.takeWhile isLineEnd).reverse.Sublist piece := by
    have hprefix := (List.takeWhile_sublist isLineEnd (l := piece.reverse)).reverse
    rwa [List.reverse_reverse] at hprefix
  unfold blankOut
  rw [List.count_append, List.count_replicate, if_neg (by decide), Nat.zero_add]
  exact hends.count_le '\n'

/-- Blanking comment lines out opens no new line. -/
theorem count_lineFeed_mask_le (cs : List Char) : (mask cs).count '\n' ≤ cs.count '\n' := by
  induction cs using line_induction with
  | nil => exact Nat.le_refl 0
  | last l hl hne =>
    rw [mask_last hl hne]
    split
    · exact count_lineFeed_blankOut_le l
    · exact Nat.le_refl _
  | line l cs hl ih =>
    have hline : (if isCommentLine l then blankOut (l ++ ['\n']) else l ++ ['\n']).count '\n' ≤
        (l ++ ['\n']).count '\n' := by
      split
      · exact count_lineFeed_blankOut_le _
      · exact Nat.le_refl _
    rw [mask_line hl, List.append_cons l '\n' cs, List.count_append, List.count_append]
    exact Nat.add_le_add hline ih

/-- A syntax error lies on a line as the breaks of every kind count them. -/
theorem breakLineOfOffset_bounds (text : String) (offset : Nat) :
    1 ≤ breakLineOfOffset text offset ∧
      breakLineOfOffset text offset ≤ (breakStarts text).length := by
  refine ⟨?_, List.countP_le_length⟩
  rw [breakLineOfOffset, breakStarts, List.countP_cons_of_pos (by simp)]
  exact Nat.le_add_left 1 _

theorem length_breakStarts_mask_le {source : String}
    (h : PlainBreaks (maskCommentLines source).toList) :
    (breakStarts (maskCommentLines source)).length ≤ source.toList.count '\n' + 1 := by
  have hmask := count_lineFeed_mask_le source.toList
  have hbreaks := length_breakStartsFrom_le h 0
  rw [breakStarts, List.length_cons]
  rw [toList_maskCommentLines] at hbreaks ⊢
  omega

/-! ## Lines of findings and diagnostics -/

theorem line_eq_one_of_mem_fileRules {doc : SchemaDocument} {rule : Rule} (hrule : rule ∈ catalogue)
    (h : rule.id ∈ fileRules) {f : Finding} (hf : f ∈ rule.findings doc) : f.line = 1 := by
  have hone : ∀ (b : Bool) (text : String),
      f ∈ (if b then [] else [⟨1, text, none⟩] : List Finding) → f.line = 1 := by
    intro b text hmem
    cases b
    · rw [List.mem_singleton.mp hmem]
    · cases hmem
  simp only [fileRules, List.mem_cons, List.not_mem_nil, or_false] at h
  obtain h | h := h
  · rw [catalogue_ext hrule (by simp [catalogue]) h] at hf
    exact hone _ _ hf
  · rw [catalogue_ext hrule (by simp [catalogue]) h] at hf
    exact hone _ _ hf

theorem line_le_of_mem_undefinedType {doc : SchemaDocument} {f : Finding}
    (hf : f ∈ undefinedType.findings doc) : f.line ≤ doc.source.toList.count '\n' + 1 := by
  obtain ⟨r, -, rfl⟩ := List.mem_map.mp hf
  exact referenceLine_le _ _ _

theorem line_le_of_mem_composition {doc : SchemaDocument} {f : Finding}
    (hf : f ∈ composition.findings doc) : f.line ≤ doc.source.toList.count '\n' + 1 := by
  rw [composition_findings] at hf
  obtain ⟨e, -, rfl⟩ := List.mem_map.mp hf
  exact keptLine_le _ _

/-- No rule reports behind the last line, with or without syntax errors. -/
theorem line_le_of_mem_findings {path source : String} {rule : Rule} (hrule : rule ∈ catalogue)
    {f : Finding} (hf : f ∈ rule.findings (.parse path source)) :
    f.line ≤ source.toList.count '\n' + 1 := by
  by_cases hfile : rule.id ∈ fileRules
  · rw [line_eq_one_of_mem_fileRules hrule hfile hf]
    exact Nat.le_add_left 1 _
  by_cases hother : rule.id = undefinedType.id
  · rw [catalogue_ext hrule (by simp [catalogue]) hother] at hf
    rw [← parse_source path source]
    exact line_le_of_mem_undefinedType hf
  by_cases hcomposition : rule.id = composition.id
  · rw [catalogue_ext hrule (by simp [catalogue]) hcomposition] at hf
    rw [← parse_source path source]
    exact line_le_of_mem_composition hf
  obtain ⟨m, -, hline⟩ :=
    List.mem_map.mp (mem_lines_of_ne_composition hrule hother hfile hcomposition hf)
  rw [← hline, ← parse_lineCount path source]
  exact lineOfOffset_le _ _

/-- The diagnostic shows the line it is on without the blanks around it, and nothing when
there is no such line. -/
structure ShowsLine (source : String) (d : Diagnostic) : Prop where
  line : ∀ text, 0 < d.line → (lines source.toList)[d.line - 1]? = some text →
    d.lineContent = String.ofList (trim text)
  outside : d.line = 0 ∨ (lines source.toList).length < d.line → d.lineContent = ""

theorem showsLine_of_mem_diagnostics {path source rule : String} {fs : List Finding}
    {d : Diagnostic} (hd : d ∈ (SchemaDocument.parse path source).diagnostics rule fs) :
    ShowsLine source d := by
  rw [SchemaDocument.diagnostics_eq_map] at hd
  obtain ⟨f, -, rfl⟩ := List.mem_map.mp hd
  have hline : ((SchemaDocument.parse path source).diagnostic rule f).line = f.line := rfl
  have hcontent : ((SchemaDocument.parse path source).diagnostic rule f).lineContent =
      lineContent source f.line := by
    rw [← parse_source path source]
    rfl
  constructor
  · intro text hpos htext
    rw [hline] at hpos htext
    obtain ⟨n, hn⟩ := Nat.exists_eq_succ_of_ne_zero (Nat.ne_of_gt hpos)
    rw [hn, Nat.succ_sub_one] at htext
    rw [hcontent, hn, lineContent, contentOf, htext]
  · intro houtside
    rw [hline] at houtside
    rw [hcontent, lineContent]
    obtain hzero | hpast := houtside
    · rw [hzero, contentOf]
    · obtain ⟨n, hn⟩ := Nat.exists_eq_succ_of_ne_zero (Nat.ne_of_gt (Nat.zero_lt_of_lt hpast))
      rw [hn] at hpast
      rw [hn, contentOf, List.getElem?_eq_none (Nat.le_of_lt_succ hpast)]

/-- A diagnostic of a report comes from the syntax or from a rule of the catalogue. -/
theorem mem_lintSource_cases {path source : String} {config : Config} {d : Diagnostic}
    (hd : d ∈ (lintSource path source config).diagnostics) :
    d ∈ (SchemaDocument.parse path source).syntaxDiagnostics ∨
      ∃ rule ∈ catalogue, d ∈ rule.check (.parse path source) := by
  simp only [lintSource, Config.retain, diagnose, List.mem_filter, List.mem_append,
    List.mem_flatMap, Settings.rules] at hd
  obtain ⟨herror | ⟨rule, hrule, hcheck⟩, -⟩ := hd
  · exact .inl herror
  · exact .inr ⟨rule, hrule.1, hcheck⟩

theorem line_of_mem_syntaxDiagnostics {doc : SchemaDocument} {d : Diagnostic}
    (hd : d ∈ doc.syntaxDiagnostics) : ∃ e ∈ doc.syntaxErrors, d.line = e.line := by
  rw [SchemaDocument.syntaxDiagnostics, SchemaDocument.diagnostics_eq_map, List.map_map] at hd
  obtain ⟨e, he, rfl⟩ := List.mem_map.mp hd
  exact ⟨e, he, rfl⟩

theorem line_of_mem_syntaxErrors {text : String} {faults : List LocatedFault} {e : SyntaxError}
    (he : e ∈ syntaxErrors text faults) : 1 ≤ e.line ∧ e.line ≤ (breakStarts text).length := by
  rw [syntaxErrors_eq_map] at he
  obtain ⟨fault, -, rfl⟩ := List.mem_map.mp he
  exact breakLineOfOffset_bounds text fault.offset

/-- Every diagnostic shows the line it is on. Its line is unknown or one of the lines of
the text, except that a syntax error is on a line as breaks of every kind count them; that
makes no difference where all breaks are line feeds. -/
theorem line_of_mem_lintSource {path source : String} {config : Config} {d : Diagnostic}
    (hd : d ∈ (lintSource path source config).diagnostics) :
    ShowsLine source d ∧
      (d.ruleId = syntaxErrorRule →
        1 ≤ d.line ∧ d.line ≤ (breakStarts (maskCommentLines source)).length) ∧
      (d.ruleId ≠ syntaxErrorRule ∨ PlainBreaks (maskCommentLines source).toList →
        d.line = 0 ∨ 1 ≤ d.line ∧ d.line ≤ (SchemaDocument.parse path source).lineCount) ∧
      (SchemaDocument.parse path source).lineCount = source.toList.count '\n' + 1 := by
  rw [parse_lineCount]
  rcases mem_lintSource_cases hd with herror | ⟨rule, hrule, hcheck⟩
  · have hid := ruleId_of_mem_syntaxDiagnostics herror
    have hline : 1 ≤ d.line ∧ d.line ≤ (breakStarts (maskCommentLines source)).length := by
      obtain ⟨e, he, hline⟩ := line_of_mem_syntaxDiagnostics herror
      rw [parse_syntaxErrors] at he
      rw [hline]
      exact line_of_mem_syntaxErrors he
    refine ⟨showsLine_of_mem_diagnostics herror, fun _ => hline, fun hplain => .inr ?_, rfl⟩
    have hbreaks := length_breakStarts_mask_le (hplain.resolve_left fun hne => hne hid)
    exact ⟨hline.1, Nat.le_trans hline.2 hbreaks⟩
  · have hid := ruleId_of_mem_check hrule hcheck
    have hle : d.line ≤ source.toList.count '\n' + 1 :=
      (forall_check_iff _ rule (· ≤ source.toList.count '\n' + 1)).mpr
        (fun f hf => line_le_of_mem_findings hrule hf) d hcheck
    refine ⟨showsLine_of_mem_diagnostics hcheck, fun herror => ?_, fun _ => ?_, rfl⟩
    · exact absurd (herror ▸ hid ▸ List.mem_map_of_mem hrule) syntaxErrorRule_not_in_catalogue
    · omega

/-- Where every lexeme is sound, the faults are what the productions note. -/
theorem read_faults_of_lexical {text : String} (h : lexicalFaults (lexemes text) = []) :
    (read text).faults = (Parser.document (.start (tokens text))).2.faults.reverse := by
  have hfaults : (read text).faults = mergeFaults (lexicalFaults (lexemes text))
      (Parser.document (.start (tokens text))).2.faults.reverse := rfl
  rw [hfaults, h, mergeFaults, List.nil_merge]

theorem exists_mem_syntaxDiagnostics {doc : SchemaDocument} {e : SyntaxError}
    (he : e ∈ doc.syntaxErrors) : ∃ d ∈ doc.syntaxDiagnostics, d.line = e.line := by
  rw [SchemaDocument.syntaxDiagnostics, SchemaDocument.diagnostics_eq_map, List.map_map]
  exact ⟨_, List.mem_map_of_mem he, rfl⟩

/-- A lone exclamation mark on a line that a carriage return and a line feed close. -/
theorem line_of_mem_lintSource_closedLine :
    PlainBreaks (maskCommentLines "!\r\n").toList ∧
      ∃ d ∈ (lintSource "schema.graphql" "!\r\n" {}).diagnostics,
        d.ruleId = syntaxErrorRule ∧ d.lineContent = "!" ∧
          (d.line = 0 ∨ 1 ≤ d.line ∧
            d.line ≤ (SchemaDocument.parse "schema.graphql" "!\r\n").lineCount) := by
  have hplain : PlainBreaks (maskCommentLines "!\r\n").toList := by decide +kernel
  have herror : ⟨"syntax error: expected a StringValue, Name or OperationDefinition", 1⟩ ∈
      (SchemaDocument.parse "schema.graphql" "!\r\n").syntaxErrors := by
    rw [parse_syntaxErrors, read_faults_of_lexical (by decide +kernel)]
    decide +kernel
  obtain ⟨d, hd, hline⟩ := exists_mem_syntaxDiagnostics herror
  have hmem : d ∈ (lintSource "schema.graphql" "!\r\n" {}).diagnostics := by
    rw [lintSource_default_diagnostics]
    exact List.mem_append_left _ hd
  obtain ⟨hshows, -, hbound, -⟩ := line_of_mem_lintSource hmem
  refine ⟨hplain, d, hmem, ruleId_of_mem_syntaxDiagnostics hd, ?_, hbound (.inr hplain)⟩
  exact hshows.line ['!'] (by rw [hline]; decide) (by rw [hline]; rfl)

/-- Behind two carriage returns a syntax error is on line 3 of a text of one line. -/
theorem syntaxError_behind_carriageReturns :
    (∃ d ∈ (lintSource "schema.graphql" "\r\r!" {}).diagnostics, d.line = 3) ∧
      (SchemaDocument.parse "schema.graphql" "\r\r!").lineCount = 1 := by
  have herror : ⟨"syntax error: expected a StringValue, Name or OperationDefinition", 3⟩ ∈
      (SchemaDocument.parse "schema.graphql" "\r\r!").syntaxErrors := by
    rw [parse_syntaxErrors, read_faults_of_lexical (by decide +kernel)]
    decide +kernel
  obtain ⟨d, hd, hline⟩ := exists_mem_syntaxDiagnostics herror
  refine ⟨⟨d, ?_, hline⟩, by rw [parse_lineCount]; decide⟩
  rw [lintSource_default_diagnostics]
  exact List.mem_append_left _ hd

end SchemaLint
