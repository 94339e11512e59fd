import SchemaLint.CommandLine.Output
import SchemaLint.Proofs.ByteOrder
import SchemaLint.Proofs.RunTotals

/-!
# A report and what the terminal shows of it

The terminal colours the rule of a diagnostic, so it takes the message apart at its first
colon with a space and joins the two parts again. The report leaves the message whole.
Without colours the two look the same exactly if there is a colon with a space, which every
message has that was made from a rule and a text, whatever colons these hold themselves.
-/

namespace SchemaLint.CommandLine

open Text

/-! ## Taking a message apart -/

theorem eq_append_of_splitAtFirst? {needle cs before after : List Char}
    (h : splitAtFirst? needle cs = some (before, after)) : cs = before ++ (needle ++ after) := by
  induction cs generalizing before with
  | nil =>
    rw [splitAtFirst?] at h
    split at h
    · next hempty =>
      obtain ⟨rfl, rfl⟩ := Prod.mk.inj (Option.some.inj h)
      rw [List.isEmpty_iff.mp hempty]
      rfl
    · cases h
  | cons c cs ih =>
    rw [splitAtFirst?] at h
    split at h
    · next hhere =>
      obtain ⟨rfl, rfl⟩ := Prod.mk.inj (Option.some.inj h)
      obtain ⟨rest, hrest⟩ := List.isPrefixOf_iff_prefix.mp hhere
      rw [← hrest, List.drop_left, List.nil_append]
    · obtain ⟨⟨before', after'⟩, hsplit, heq⟩ := Option.map_eq_some_iff.mp h
      obtain ⟨rfl, rfl⟩ := Prod.mk.inj heq
      rw [ih hsplit, List.cons_append]

theorem splitAtFirst?_isSome_iff (needle cs : List Char) :
    (splitAtFirst? needle cs).isSome ↔ needle <:+: cs := by
  induction cs with
  | nil =>
    rw [splitAtFirst?, List.infix_nil]
    cases needle <;> simp
  | cons c cs ih =>
    rw [splitAtFirst?, List.infix_cons_iff, ← ih, ← List.isPrefixOf_iff_prefix]
    split
    · next hhere => simp [hhere]
    · next hhere => simp [hhere]

/-- What divides the rule of a message from its text. -/
def divider : List Char := [':', ' ']

theorem toList_append_divider (rule text : String) :
    (rule ++ ": " ++ text).toList = rule.toList ++ (divider ++ text.toList) := by
  simp [divider]

/-- The parts of a message with a divider make the message. -/
theorem ruleAndText_joined {d : Diagnostic} (h : divider <:+: d.message.toList) :
    (ruleAndText d).1 ++ ": " ++ (ruleAndText d).2 = d.message := by
  obtain ⟨⟨rule, text⟩, hsplit⟩ :=
    Option.isSome_iff_exists.mp ((splitAtFirst?_isSome_iff _ _).mpr h)
  have hparts : ruleAndText d = (String.ofList rule, String.ofList text) := by
    rw [ruleAndText, show [':', ' '] = divider from rfl, hsplit]
  apply String.toList_injective
  rw [hparts, toList_append_divider, String.toList_ofList, String.toList_ofList]
  exact (eq_append_of_splitAtFirst? hsplit).symm

/-- A message without a divider is text as a whole. -/
theorem ruleAndText_of_no_divider {d : Diagnostic} (h : ¬ divider <:+: d.message.toList) :
    ruleAndText d = (d.ruleId, d.message) := by
  have hsplit : splitAtFirst? [':', ' '] d.message.toList = none := by
    rw [← Option.not_isSome_iff_eq_none]
    exact fun hsome => h ((splitAtFirst?_isSome_iff _ _).mp hsome)
  rw [ruleAndText, hsplit]

/-! ## One diagnostic -/

theorem paint_plain (c : Colour) (text : String) : paint false c text = text := rfl

theorem formatDiagnostic_plain (d : Diagnostic) :
    formatDiagnostic false d = d.file ++ ":" ++ toString d.line ++ ": " ++
      ((ruleAndText d).1 ++ ": " ++ (ruleAndText d).2) ++ "\n  " ++ d.lineContent ++ "\n" := by
  simp only [formatDiagnostic, paint_plain, String.append_assoc]

/-- Without colours the terminal shows a diagnostic as the report does, if its message has a
divider, and only then. -/
theorem formatDiagnostic_eq_render_iff (d : Diagnostic) :
    formatDiagnostic false d = d.render ++ "\n" ↔ divider <:+: d.message.toList := by
  rw [formatDiagnostic_plain, Diagnostic.render]
  constructor
  · intro h
    -- The identifier that would be put before the message makes it longer.
    by_contra hnot
    rw [ruleAndText_of_no_divider hnot] at h
    have hlength := congrArg String.length h
    simp only [String.length_append] at hlength
    have hdivider : ": ".length = 2 := by decide
    omega
  · intro h
    rw [ruleAndText_joined h]

/-! ## Whole reports -/

/-- The diagnostic was made from a rule and a text. -/
def IsMade (d : Diagnostic) : Prop :=
  ∃ file line rule text content value, d = .make file line rule text content value

theorem divider_infix_of_isMade {d : Diagnostic} (h : IsMade d) :
    divider <:+: d.message.toList := by
  obtain ⟨file, line, rule, text, content, value, rfl⟩ := h
  refine ⟨rule.toList, text.toList, ?_⟩
  rw [List.append_assoc]
  exact (toList_append_divider rule text).symm

theorem diagnosticBlock_plain {r : RunReport} (h : ∀ d ∈ r.diagnostics, IsMade d) :
    diagnosticBlock false r = r.renderDiagnostics := by
  have hshown : ∀ d ∈ r.diagnostics, formatDiagnostic false d = d.render ++ "\n" := fun d hd =>
    (formatDiagnostic_eq_render_iff d).mpr (divider_infix_of_isMade (h d hd))
  rw [diagnosticBlock, RunReport.renderDiagnostics, List.map_congr_left hshown]

/-- A rule and its count on a line. -/
def ruleLine (e : String × Nat) : String := "  " ++ e.1 ++ ": " ++ toString e.2 ++ "\n"

def countBlock (counts : List (String × Nat)) : String :=
  "Error type summary:\n" ++ String.join (counts.map ruleLine)

theorem renderErrorTypes_eq (r : RunReport) : r.renderErrorTypes = countBlock r.errorTypes := rfl

/-- The terminal and the report show the same diagnostics and the same counts. -/
structure ShownAlike (r : RunReport) : Prop where
  diagnostics : String.join (r.diagnostics.map (formatDiagnostic false)) = r.renderDiagnostics
  terminal : humanOutput false r =
    r.renderDiagnostics ++ "\n" ++ countBlock r.errorTypes ++ "\n" ++ verdict false r ++ "\n"
  report : r.render = r.renderDiagnostics ++ countBlock r.errorTypes ++ r.renderTotals
  /-- No rule has two lines, and the lines are in the order of the bytes. -/
  increasing : (r.errorTypes.map fun e => bytes e.1).Pairwise (· < ·)
  counts : ∀ id n, (id, n) ∈ r.errorTypes ↔ n = r.diagnostics.countP (·.ruleId = id) ∧ 0 < n

/-- Without colours the terminal shows the diagnostics of a report byte for byte as the
report does, and the same counts in the same order, whatever the rules and texts that the
diagnostics were made from. -/
theorem shownAlike_of_made (r : RunReport) (h : ∀ d ∈ r.diagnostics, IsMade d) :
    ShownAlike r := by
  have hblock := diagnosticBlock_plain h
  refine ⟨hblock, ?_, rfl, ?_, fun id n => r.mem_errorTypes_iff⟩
  · rw [humanOutput, hblock, renderErrorTypes_eq]
  · have hkeys := List.pairwise_map.mp r.errorTypes_keys_pairwise
    exact List.pairwise_map.mpr (hkeys.imp bytes_lt_iff.mpr)

/-- Two files, with colons in what their diagnostics are made from. -/
def colonReport : RunReport :=
  ⟨[⟨"b", [.make "b" 3 "late: rule" ": x" "" none, .make "b" 3 "a:b" "" "y" none], 0⟩,
    ⟨"C:a", [.make "C:a" 0 "" " : " "" (some "v")], 2⟩]⟩

theorem shownAlike_of_made_colons :
    (∀ d ∈ colonReport.diagnostics, IsMade d) ∧ ShownAlike colonReport ∧
      diagnosticBlock false colonReport =
        "b:3: late: rule: : x\n  \nb:3: a:b: \n  y\nC:a:0: :  : \n  \n" := by
  have hmade : ∀ d ∈ colonReport.diagnostics, IsMade d := by
    intro d hd
    simp only [colonReport, RunReport.diagnostics, List.flatMap_cons, List.flatMap_nil,
      List.append_nil, List.cons_append, List.nil_append, List.mem_cons, List.not_mem_nil,
      or_false] at hd
    rcases hd with rfl | rfl | rfl <;> exact ⟨_, _, _, _, _, _, rfl⟩
  exact ⟨hmade, shownAlike_of_made colonReport hmade, by decide +kernel⟩

end SchemaLint.CommandLine
