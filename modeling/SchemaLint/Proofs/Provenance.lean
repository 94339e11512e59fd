import Mathlib.Data.List.Nodup
import SchemaLint.Proofs.LineBounds

/-!
# Where a diagnostic comes from

A diagnostic does not store the rule that wrote it. The identifier is read back from the
message up to its first colon, and the text from behind the first colon with a space.
Identifiers hold no colon, so both come back as they went in, whatever the text holds. A
report then shows its diagnostics in the order of the rules, and suppressions do not
disturb that order.
-/

namespace SchemaLint

open Source Text Rule

/-! ## Reading a message back -/

theorem splitAtFirst?_append {c : Char} {before : List Char} (h : c ∉ before)
    (needle after : List Char) :
    splitAtFirst? (c :: needle) (before ++ (c :: needle ++ after)) = some (before, after) := by
  induction before with
  | nil =>
    have hhere : (c :: needle).isPrefixOf (c :: needle ++ after) = true := by simp
    rw [List.nil_append, List.cons_append, splitAtFirst?, ← List.cons_append, if_pos hhere,
      List.drop_left]
  | cons d before ih =>
    rw [List.mem_cons, not_or] at h
    have hne : ¬ (c :: needle).isPrefixOf (d :: (before ++ (c :: needle ++ after))) = true := by
      simp [h.1]
    rw [List.cons_append, splitAtFirst?, if_neg hne, ih h.2]
    rfl

/-- A text is read back from the message, colons and all. -/
theorem text_make {rule : String} (h : ':' ∉ rule.toList) (file : String) (line : Nat)
    (text content : String) (value : Option String) :
    (Diagnostic.make file line rule text content value).text = text := by
  have hmessage : (rule ++ ": " ++ text).toList = rule.toList ++ ([':', ' '] ++ text.toList) := by
    simp
  simp only [Diagnostic.text, Diagnostic.make, hmessage]
  rw [splitAtFirst?_append h]
  exact String.ofList_toList

/-- The diagnostic puts the finding of a rule into words. -/
structure Diagnostic.States (d : Diagnostic) (doc : SchemaDocument) (rule : String)
    (f : Finding) : Prop where
  file : d.file = doc.path
  line : d.line = f.line
  ruleId : d.ruleId = rule
  text : d.text = f.text
  message : d.message = d.ruleId ++ ": " ++ d.text
  lineContent : d.lineContent = Source.lineContent doc.source f.line
  value : d.value = f.value

theorem exists_finding_of_mem_diagnostics {doc : SchemaDocument} {rule : String}
    (h : ':' ∉ rule.toList) {fs : List Finding} {d : Diagnostic}
    (hd : d ∈ doc.diagnostics rule fs) : ∃ f ∈ fs, d.States doc rule f := by
  rw [SchemaDocument.diagnostics_eq_map] at hd
  obtain ⟨f, hf, rfl⟩ := List.mem_map.mp hd
  have hid : (doc.diagnostic rule f).ruleId = rule := ruleId_make h _ _ _ _ _
  have htext : (doc.diagnostic rule f).text = f.text := text_make h _ _ _ _ _
  refine ⟨f, hf, rfl, rfl, hid, htext, ?_, rfl, rfl⟩
  rw [hid, htext]
  rfl

theorem exists_finding_of_mem_check {doc : SchemaDocument} {rule : Rule} (hrule : rule ∈ catalogue)
    {d : Diagnostic} (hd : d ∈ rule.check doc) :
    ∃ f ∈ rule.findings doc, d.States doc rule.id f :=
  exists_finding_of_mem_diagnostics
    (catalogue_ids_no_colon rule.id (List.mem_map_of_mem hrule)) hd

/-! ## The order of a report -/

/-- The identifiers that a report on a text can show, in the order in which it does. -/
def reportOrder : List String := syntaxErrorRule :: catalogue.map (·.id)

def Diagnostic.position (d : Diagnostic) : Nat := reportOrder.idxOf d.ruleId

theorem reportOrder_nodup : reportOrder.Nodup :=
  List.nodup_cons.mpr ⟨syntaxErrorRule_not_in_catalogue, catalogue_ids_nodup⟩

theorem reportOrder_subset_allRuleIds : reportOrder ⊆ allRuleIds :=
  List.cons_subset_cons _ (List.subset_cons_self _ _)

theorem reportOrder_pairwise : reportOrder.Pairwise (reportOrder.idxOf · < reportOrder.idxOf ·) := by
  refine List.pairwise_iff_getElem.mpr fun i j hi hj hij => ?_
  rwa [reportOrder_nodup.idxOf_getElem, reportOrder_nodup.idxOf_getElem]

theorem position_of_mem_check {rule : Rule} (hrule : rule ∈ catalogue) {doc : SchemaDocument}
    {d : Diagnostic} (hd : d ∈ rule.check doc) : d.position = reportOrder.idxOf rule.id := by
  rw [Diagnostic.position, ruleId_of_mem_check hrule hd]

theorem position_of_mem_syntaxDiagnostics {doc : SchemaDocument} {d : Diagnostic}
    (hd : d ∈ doc.syntaxDiagnostics) : d.position = 0 := by
  rw [Diagnostic.position, ruleId_of_mem_syntaxDiagnostics hd]
  exact List.idxOf_cons_self

/-- Rules that run in the order of the catalogue report in that order. -/
theorem pairwise_position_flatMap {rules : List Rule} (hrules : rules.Sublist catalogue)
    (doc : SchemaDocument) :
    (rules.flatMap (·.check doc)).Pairwise (·.position ≤ ·.position) := by
  refine List.pairwise_flatMap.mpr ⟨fun rule hrule => ?_, ?_⟩
  · refine List.pairwise_of_forall_mem_list fun d hd e he => Nat.le_of_eq ?_
    have hmem := hrules.subset hrule
    rw [position_of_mem_check hmem hd, position_of_mem_check hmem he]
  · have hids : (rules.map (·.id)).Pairwise (reportOrder.idxOf · < reportOrder.idxOf ·) :=
      reportOrder_pairwise.sublist ((hrules.map _).trans (List.sublist_cons_self _ _))
    refine (List.pairwise_map.mp hids).imp_of_mem fun {a b} ha hb hab d hd e he => ?_
    rw [position_of_mem_check (hrules.subset ha) hd, position_of_mem_check (hrules.subset hb) he]
    exact Nat.le_of_lt hab

theorem pairwise_position_diagnose (s : Settings) (doc : SchemaDocument) :
    (diagnose s doc).Pairwise (·.position ≤ ·.position) := by
  have hfirst : ∀ d ∈ doc.syntaxDiagnostics, ∀ e : Diagnostic, d.position ≤ e.position := by
    intro d hd e
    rw [position_of_mem_syntaxDiagnostics hd]
    exact Nat.zero_le _
  refine List.pairwise_append.mpr ⟨?_, ?_, fun d hd e _ => hfirst d hd e⟩
  · exact List.pairwise_of_forall_mem_list fun d hd e _ => hfirst d hd e
  · exact pairwise_position_flatMap List.filter_sublist doc

/-! ## Reports -/

theorem parse_path (path source : String) : (SchemaDocument.parse path source).path = path := by
  unfold SchemaDocument.parse
  dsimp only

theorem lintSource_diagnostics (path source : String) (config : Config) :
    (lintSource path source config).diagnostics =
      (diagnose config.settings (.parse path source)).filter (!config.hides ·) := by
  unfold lintSource Config.retain
  dsimp only

/-- A diagnostic of a report states what the parser or a rule found in the document. -/
theorem exists_finding_of_mem_lintSource {path source : String} {config : Config} {d : Diagnostic}
    (hd : d ∈ (lintSource path source config).diagnostics) :
    ∃ rule ∈ reportOrder, ∃ f, d.States (.parse path source) rule f := by
  rcases mem_lintSource_cases hd with herror | ⟨rule, hrule, hcheck⟩
  · obtain ⟨f, -, hstates⟩ := exists_finding_of_mem_diagnostics (by decide) herror
    exact ⟨_, List.mem_cons_self, f, hstates⟩
  · obtain ⟨f, -, hstates⟩ := exists_finding_of_mem_check hrule hcheck
    exact ⟨_, List.mem_cons_of_mem _ (List.mem_map_of_mem hrule), f, hstates⟩

/-- Every diagnostic of a report names its file and a known rule, and its message is the
name of the rule, a colon, a space and the text; the report is in the order of the rules.
A rule of the catalogue writes under its own name, and any name without a colon can be
read back from a message, with any text. -/
theorem provenance_of_lintSource :
    (∀ (path source : String) (config : Config),
      let report := (lintSource path source config).diagnostics
      (∀ d ∈ report, d.file = path ∧ d.ruleId ∈ allRuleIds ∧ d.ruleId ∈ reportOrder ∧
        d.message = d.ruleId ++ ": " ++ d.text) ∧
      (report.map fun d => reportOrder.idxOf d.ruleId).Pairwise (· ≤ ·)) ∧
    (∀ rule ∈ catalogue, ∀ (doc : SchemaDocument), ∀ d ∈ rule.check doc, d.ruleId = rule.id) ∧
    ∀ (file : String) (line : Nat) (rule text content : String) (value : Option String),
      ':' ∉ rule.toList →
        (Diagnostic.make file line rule text content value).ruleId = rule ∧
          (Diagnostic.make file line rule text content value).text = text := by
  refine ⟨fun path source config => ⟨fun d hd => ?_, ?_⟩, ?_, ?_⟩
  · obtain ⟨rule, hrule, f, hstates⟩ := exists_finding_of_mem_lintSource hd
    have hid : d.ruleId ∈ reportOrder := hstates.ruleId ▸ hrule
    exact ⟨hstates.file.trans (parse_path path source), reportOrder_subset_allRuleIds hid, hid,
      hstates.message⟩
  · rw [List.pairwise_map, lintSource_diagnostics]
    exact (pairwise_position_diagnose _ _).filter _
  · exact fun rule hrule doc d hd => ruleId_of_mem_check hrule hd
  · intro file line rule text content value h
    exact ⟨ruleId_make h file line text content value, text_make h file line text content value⟩

/-- A text that defines nothing lacks a root type; and a text full of colons is read back. -/
theorem provenance_of_lintSource_missingRoot :
    (∃ d ∈ (lintSource "schema.graphql" "!" {}).diagnostics,
      queryRoot ∈ catalogue ∧ d ∈ queryRoot.check (.parse "schema.graphql" "!") ∧
        d.ruleId = queryRoot.id ∧ d.file = "schema.graphql" ∧
        d.message = d.ruleId ++ ": " ++ d.text) ∧
      (Diagnostic.make "schema.graphql" 1 "rule" ": a: b" "" none).text = ": a: b" := by
  obtain ⟨hreports, hrules, hmake⟩ := provenance_of_lintSource
  have hroot : queryRoot ∈ catalogue := by simp [catalogue]
  have hlength : (queryRoot.check (.parse "schema.graphql" "!")).length = 1 := by decide +kernel
  obtain ⟨d, hd⟩ := List.exists_mem_of_length_pos (Nat.lt_of_lt_of_eq Nat.zero_lt_one hlength.symm)
  have hmem : d ∈ (lintSource "schema.graphql" "!" {}).diagnostics := by
    rw [lintSource_default_diagnostics]
    exact List.mem_append_right _ (List.mem_flatMap.mpr ⟨queryRoot, hroot, hd⟩)
  obtain ⟨hfile, -, -, hmessage⟩ := (hreports "schema.graphql" "!" {}).1 d hmem
  exact ⟨⟨d, hmem, hroot, hd, hrules queryRoot hroot _ d hd, hfile, hmessage⟩,
    (hmake _ _ "rule" ": a: b" _ _ (by decide)).2⟩

end SchemaLint
