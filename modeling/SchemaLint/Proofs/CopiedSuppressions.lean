import SchemaLint.Proofs.InertSuppressions
import SchemaLint.Proofs.MemberOrder

/-!
# Suppressions copied from a report

Who reads a report can copy the file, the line, the rule and the value of a diagnostic into
a new suppression. Empty selectors of a suppression stand for anything, so it has to be
shown that the entry does not reach further than it reads: all diagnostics of a report are
on one file, their rules have names, and the line is not 0. What the entry then takes out of
the report are the diagnostics of that rule on that line, and of these only the ones with
the same value if there is one.
-/

namespace SchemaLint

open Sdl Rule

/-! ## One more entry -/

/-- The configuration with one more entry behind the others. -/
def Config.adding (config : Config) (e : Suppression) : Config :=
  { config with suppressions := config.suppressions ++ [e] }

theorem hides_adding (config : Config) (e : Suppression) (d : Diagnostic) :
    (config.adding e).hides d = (config.hides d || e.hides d.coordinates) := by
  rw [Bool.eq_iff_iff, Bool.or_eq_true, Config.hides, Config.hides, suppresses_iff,
    suppresses_iff]
  simp only [Config.adding, List.mem_append, List.mem_singleton, or_and_right, exists_or,
    exists_eq_left]

theorem retain_adding_diagnostics (config : Config) (e : Suppression) (path : String)
    (ds : List Diagnostic) :
    ((config.adding e).retain path ds).diagnostics =
      (config.retain path ds).diagnostics.filter (!e.hides ·.coordinates) := by
  simp only [Config.retain, List.filter_filter]
  apply List.filter_congr
  intro d _
  rw [hides_adding, Bool.not_or, Bool.and_comm]

/-- What the entry hides is counted if it was not hidden before. -/
theorem retain_adding_suppressed (config : Config) (e : Suppression) (path : String)
    (ds : List Diagnostic) :
    ((config.adding e).retain path ds).suppressed = (config.retain path ds).suppressed +
      (config.retain path ds).diagnostics.countP (e.hides ·.coordinates) := by
  have hall := retain_total (config.adding e) path ds
  have hbefore := retain_total config path ds
  have hsplit := List.length_eq_countP_add_countP (fun d : Diagnostic => e.hides d.coordinates)
    (l := (config.retain path ds).diagnostics)
  have hkept : ((config.adding e).retain path ds).diagnostics.length =
      (config.retain path ds).diagnostics.countP fun d => ¬ e.hides d.coordinates = true := by
    rw [retain_adding_diagnostics, ← List.countP_eq_length_filter]
    apply List.countP_congr
    intro d _
    simp
  omega

theorem settings_adding (config : Config) (e : Suppression) :
    (config.adding e).settings = config.settings := rfl

/-- One more entry filters the report once more, and counts what it takes out. -/
theorem lintSource_adding (path source : String) (config : Config) (e : Suppression) :
    (lintSource path source (config.adding e)).diagnostics =
        (lintSource path source config).diagnostics.filter (!e.hides ·.coordinates) ∧
      (lintSource path source (config.adding e)).suppressed =
        (lintSource path source config).suppressed +
          (lintSource path source config).diagnostics.countP (e.hides ·.coordinates) := by
  rw [lintSource_eq_retain, lintSource_eq_retain, settings_adding]
  exact ⟨retain_adding_diagnostics _ _ _ _, retain_adding_suppressed _ _ _ _⟩

/-! ## The entry for a diagnostic -/

/-- What a reader copies from a diagnostic. -/
def Diagnostic.suppression (d : Diagnostic) (reason : String) : Suppression :=
  ⟨d.file, d.line, d.ruleId, d.suppressionValue, reason⟩

/-- Of the same rule and on the same line; with the same value too, if `d` has one. -/
def Diagnostic.Targets (d d' : Diagnostic) : Prop :=
  d'.ruleId = d.ruleId ∧ d'.line = d.line ∧
    (d.suppressionValue = "" ∨ d'.suppressionValue = d.suppressionValue)

instance (d : Diagnostic) : DecidablePred d.Targets := fun _ =>
  inferInstanceAs (Decidable (_ ∧ _ ∧ (_ ∨ _)))

theorem Diagnostic.targets_self (d : Diagnostic) : d.Targets d := ⟨rfl, rfl, .inr rfl⟩

/-- On a diagnostic of the same file no selector of the entry stands for anything, but for
an empty value. -/
theorem hides_suppression_iff {d d' : Diagnostic} (hfile : d'.file = d.file)
    (hline : 0 < d.line) (hrule : d.ruleId ≠ "") (reason : String) :
    (d.suppression reason).hides d'.coordinates = true ↔ d.Targets d' := by
  have hsuffix : normalizedPath d.file <:+ normalizedPath d'.file :=
    hfile ▸ List.suffix_refl _
  have hnonzero : d.line ≠ 0 := Nat.pos_iff_ne_zero.mp hline
  rw [hides_iff]
  simp only [Diagnostic.suppression, Diagnostic.coordinates, hsuffix, hrule, hnonzero, or_true,
    false_or, true_and, Diagnostic.Targets]
  constructor
  · rintro ⟨hl, hr, hv⟩
    exact ⟨hr.symm, hl.symm, hv.imp_right Eq.symm⟩
  · rintro ⟨hr, hl, hv⟩
    exact ⟨hl.symm, hr.symm, hv.imp_right Eq.symm⟩

/-! ## Reports -/

section Reports

variable {path source : String} {config : Config} {d : Diagnostic}

theorem file_of_mem_lintSource (hd : d ∈ (lintSource path source config).diagnostics) :
    d.file = path := by
  obtain ⟨rule, -, f, hstates⟩ := exists_finding_of_mem_lintSource hd
  exact hstates.file.trans (parse_path path source)

theorem ruleId_ne_empty_of_mem_lintSource
    (hd : d ∈ (lintSource path source config).diagnostics) : d.ruleId ≠ "" := by
  have hnamed : ∀ rule ∈ reportOrder, rule ≠ "" := by decide
  obtain ⟨rule, hrule, f, hstates⟩ := exists_finding_of_mem_lintSource hd
  rw [hstates.ruleId]
  exact hnamed rule hrule

/-- A diagnostic on the order of enum values has its whole text for a value. -/
theorem value_of_enumValuesSorted (hd : d ∈ (lintSource path source config).diagnostics)
    (hid : d.ruleId = enumValuesSorted.id) :
    d.suppressionValue = d.text ∧ d.message = enumValuesSorted.id ++ ": " ++ d.text := by
  rcases mem_lintSource_cases hd with herror | ⟨rule, hrule, hcheck⟩
  · rw [ruleId_of_mem_syntaxDiagnostics herror] at hid
    exact absurd hid (by decide)
  · rw [ruleId_of_mem_check hrule hcheck] at hid
    obtain rfl := catalogue_ext hrule (by simp [catalogue]) hid
    obtain ⟨f, hf, hstates⟩ := exists_finding_of_mem_check hrule hcheck
    have hvalue : f.value = some f.text := by
      simp only [enumValuesSorted, List.mem_map] at hf
      obtain ⟨g, -, rfl⟩ := hf
      rfl
    constructor
    · rw [Diagnostic.suppressionValue, hstates.value, hvalue, hstates.text]
      rfl
    · rw [hstates.message, hstates.ruleId]

/-- The entry for a diagnostic with a line takes that diagnostic out of the report, together
with those of its rule on its line that have its value, or with all of these if it has none.
The others stay in their order, and what is gone is counted. The value of a diagnostic on
unsorted enum values is its text, so its entry spares whatever has another text. -/
theorem lintSource_adding_suppression (hd : d ∈ (lintSource path source config).diagnostics)
    (hline : 0 < d.line) (reason : String) :
    (lintSource path source (config.adding (d.suppression reason))).diagnostics =
      (lintSource path source config).diagnostics.filter (¬ d.Targets ·) ∧
    (lintSource path source (config.adding (d.suppression reason))).suppressed =
      (lintSource path source config).suppressed +
        (lintSource path source config).diagnostics.countP (d.Targets ·) ∧
    d ∉ (lintSource path source (config.adding (d.suppression reason))).diagnostics ∧
    (d.ruleId = enumValuesSorted.id →
      d.suppressionValue = d.text ∧
        d.message = enumValuesSorted.id ++ ": " ++ d.suppressionValue) := by
  have hhides : ∀ d' ∈ (lintSource path source config).diagnostics,
      (d.suppression reason).hides d'.coordinates = decide (d.Targets d') := by
    intro d' hd'
    have hfile : d'.file = d.file :=
      (file_of_mem_lintSource hd').trans (file_of_mem_lintSource hd).symm
    rw [Bool.eq_iff_iff, decide_eq_true_eq]
    exact hides_suppression_iff hfile hline (ruleId_ne_empty_of_mem_lintSource hd) reason
  obtain ⟨hdiagnostics, hsuppressed⟩ :=
    lintSource_adding path source config (d.suppression reason)
  have hkept : (lintSource path source (config.adding (d.suppression reason))).diagnostics =
      (lintSource path source config).diagnostics.filter (¬ d.Targets ·) := by
    rw [hdiagnostics]
    apply List.filter_congr
    intro d' hd'
    rw [decide_not, hhides d' hd']
  refine ⟨hkept, ?_, ?_, fun hid => ?_⟩
  · rw [hsuppressed, Nat.add_left_cancel_iff]
    apply List.countP_congr
    intro d' hd'
    rw [hhides d' hd']
  · rw [hkept, List.mem_filter]
    simp [d.targets_self]
  · obtain ⟨hvalue, hmessage⟩ := value_of_enumValuesSorted hd hid
    exact ⟨hvalue, by rw [hvalue, hmessage]⟩

end Reports

/-- Two enums out of order on one line. -/
def enumsOnOneLine : String := "enum A \x7b Z Y \x7d enum B \x7b Z Y \x7d"

/-- What is said of an enum on that line, and can be named as its value. -/
def unsortedText (name : String) : String :=
  "The enum " ++ ticked name ++ " should be sorted alphabetically. Expected sorting: Y, Z"

def unsortedOnOneLine (name : String) : Diagnostic :=
  .make "schema.graphql" 1 enumValuesSorted.id (unsortedText name) enumsOnOneLine
    (some (unsortedText name))

theorem check_enumsOnOneLine :
    enumValuesSorted.check (.parse "schema.graphql" enumsOnOneLine) =
      [unsortedOnOneLine "A", unsortedOnOneLine "B"] := by
  let doc := SchemaDocument.parse "schema.graphql" enumsOnOneLine
  let a := enumWith 0 ⟨"A", 5⟩ [⟨"Z", 9⟩, ⟨"Y", 11⟩]
  let b := enumWith 15 ⟨"B", 20⟩ [⟨"Z", 24⟩, ⟨"Y", 26⟩]
  have hleaves : LeavesAt ["Z", "Y"] ["Y", "Z"] 0 :=
    ⟨by decide, by decide +kernel, by decide, ⟨"Z", "Y", rfl, rfl, by decide⟩, by decide +kernel,
      ⟨"Z", 1, "Y", rfl, by decide, rfl, by decide +kernel⟩⟩
  have htypes : doc.typesOf .enum = [a, b] := by decide +kernel
  have ha : MemberOrder.enumValues.complaint? doc a = some (doc.finding ⟨"Z", 9⟩
      (MemberOrder.enumValues.complaint a ["Y", "Z"])) :=
    MemberOrder.complaint?_eq_some hleaves rfl
  have hb : MemberOrder.enumValues.complaint? doc b = some (doc.finding ⟨"Z", 24⟩
      (MemberOrder.enumValues.complaint b ["Y", "Z"])) :=
    MemberOrder.complaint?_eq_some hleaves rfl
  have hfindings : enumValuesSorted.findings doc =
      ((doc.typesOf .enum).filterMap (MemberOrder.enumValues.complaint? doc)).map fun f =>
        { f with value := some f.text } := rfl
  rw [Rule.check, hfindings, htypes, List.filterMap_cons_some ha, List.filterMap_cons_some hb]
  decide +kernel

/-- The entry for the first enum spares the second. -/
theorem lintSource_adding_suppression_sameLine :
    let report := lintSource "schema.graphql" enumsOnOneLine
    let d := unsortedOnOneLine "A"
    d ∈ (report {}).diagnostics ∧ 0 < d.line ∧ d.ruleId = enumValuesSorted.id ∧
      d.suppressionValue = d.text ∧
      d ∉ (report (.adding {} (d.suppression "legacy"))).diagnostics ∧
      unsortedOnOneLine "B" ∈ (report (.adding {} (d.suppression "legacy"))).diagnostics := by
  intro report d
  have hmem : ∀ x ∈ [d, unsortedOnOneLine "B"], x ∈ (report {}).diagnostics := by
    rw [← check_enumsOnOneLine]
    intro x hx
    rw [lintSource_default_diagnostics]
    apply List.mem_append_right
    exact List.mem_flatMap.mpr ⟨enumValuesSorted, by simp [catalogue], hx⟩
  have hd : d ∈ (report {}).diagnostics := hmem d (by simp)
  have hid : d.ruleId = enumValuesSorted.id := by decide
  obtain ⟨hkept, -, hgone, hvalue⟩ := lintSource_adding_suppression hd (by decide) "legacy"
  refine ⟨hd, by decide, hid, (hvalue hid).1, hgone, ?_⟩
  rw [hkept, List.mem_filter]
  exact ⟨hmem _ (by simp), by decide⟩

end SchemaLint
