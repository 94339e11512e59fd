import SchemaLint.Proofs.CleanSchema
import SchemaLint.Proofs.Provenance
import SchemaLint.Proofs.Sdl.NameTokens

/-!
# Enum values are identifiers

A value of an enum comes into a document as a name token, whether the text has syntax errors
or not. Names of the schema language are made of fewer characters than the identifiers that
the rule on invalid enum values lets pass. So that rule has nothing to say on any text, and
reports would be the same without it.
-/

namespace SchemaLint

open Sdl Rule

/-! ## Names of a document -/

/-- Names in a document are names of the language, also where parts of the text could not
be read. -/
theorem isName_of_mem_definitions {path source : String} {d : Definition}
    (hd : d ∈ (SchemaDocument.parse path source).definitions) {n : Name}
    (hn : .name n ∈ d.marks) : isName n.text = true := by
  rw [parse_definitions] at hd
  exact isName_of_mem_reading (List.mem_flatMap.mpr ⟨d, hd, hn⟩)

theorem isName_of_mem_enumValues {path source : String} {d : Definition}
    (hd : d ∈ (SchemaDocument.parse path source).definitions) {v : EnumValue}
    (hv : v ∈ d.body.enumValues) : isName v.name.text = true :=
  isName_of_mem_definitions hd (mem_marks_of_enumValue (List.mem_map_of_mem hv))

theorem invalidEnumValue_check_parse (path source : String) :
    invalidEnumValue.check (.parse path source) = [] := by
  have hsilent : invalidEnumValue.findings (.parse path source) = [] :=
    invalidEnumValue_silent fun _ hd _ => isName_of_mem_enumValues hd
  rw [check, SchemaDocument.diagnostics_eq_map, hsilent, List.map_nil]

/-! ## Rules that have nothing to say -/

section Silent

variable {rule : Rule} (hrule : rule ∈ catalogue) {doc : SchemaDocument} (h : rule.check doc = [])
include hrule h

/-- A rule that reports nothing is not named by any diagnostic: no other rule writes under
its name. -/
theorem ruleId_ne_of_silent (s : Settings) : ∀ d ∈ diagnose s doc, d.ruleId ≠ rule.id := by
  intro d hd hid
  rcases List.mem_append.mp hd with herror | hcheck
  · have hsyntaxError : rule.id = syntaxErrorRule :=
      hid.symm.trans (ruleId_of_mem_syntaxDiagnostics herror)
    exact syntaxErrorRule_not_in_catalogue (hsyntaxError ▸ List.mem_map_of_mem hrule)
  · obtain ⟨other, hother, hd⟩ := List.mem_flatMap.mp hcheck
    have hmem : other ∈ catalogue := List.mem_of_mem_filter hother
    obtain rfl : other = rule :=
      catalogue_ext hmem hrule ((ruleId_of_mem_check hmem hd).symm.trans hid)
    rw [h] at hd
    cases hd

theorem flatMap_check_without {rules : List Rule} (hrules : rules ⊆ catalogue) :
    (rules.filter (·.id ≠ rule.id)).flatMap (·.check doc) = rules.flatMap (·.check doc) := by
  induction rules with
  | nil => rfl
  | cons other rules ih =>
    obtain ⟨hother, hrules⟩ := List.cons_subset.mp hrules
    rw [List.flatMap_cons, ← ih hrules]
    by_cases hid : other.id = rule.id
    · obtain rfl := catalogue_ext hother hrule hid
      rw [h, List.filter_cons_of_neg (by simp), List.nil_append]
    · rw [List.filter_cons_of_pos (by simpa using hid), List.flatMap_cons]

/-- Leaving the rule out changes nothing. -/
theorem diagnose_without_silent (s : Settings) :
    diagnose s doc =
      doc.syntaxDiagnostics ++ (s.rules.filter (·.id ≠ rule.id)).flatMap (·.check doc) := by
  have hrules : s.rules ⊆ catalogue := List.filter_subset_self _
  rw [flatMap_check_without hrule h hrules, diagnose]

end Silent

/-! ## Reports -/

/-- No enum value of a text is an invalid one. -/
structure NoInvalidEnumValue (path source : String) : Prop where
  /-- Values of definitions and of extensions are told alike. -/
  names : ∀ d ∈ (SchemaDocument.parse path source).definitions, ∀ v ∈ d.body.enumValues,
    isName v.name.text = true ∧ isValidEnumValue v.name.text = true
  check : invalidEnumValue.check (.parse path source) = []
  /-- Nothing is there to be suppressed. -/
  produced : ∀ s, ∀ d ∈ diagnose s (.parse path source), d.ruleId ≠ invalidEnumValue.id
  report : ∀ config, ∀ d ∈ (lintSource path source config).diagnostics,
    d.ruleId ≠ invalidEnumValue.id
  /-- The rule is one of the catalogue, and can be left out of it. -/
  without : invalidEnumValue ∈ catalogue ∧ ∀ s, diagnose s (.parse path source) =
    (SchemaDocument.parse path source).syntaxDiagnostics ++
      (s.rules.filter (·.id ≠ invalidEnumValue.id)).flatMap (·.check (.parse path source))

/-- Whatever a text is, the rule on invalid enum values stays silent on it. -/
theorem invalidEnumValue_never_reported (path source : String) :
    NoInvalidEnumValue path source := by
  have hrule : invalidEnumValue ∈ catalogue := by simp [catalogue]
  have hcheck := invalidEnumValue_check_parse path source
  have hdiagnose := ruleId_ne_of_silent hrule hcheck
  refine ⟨fun d hd v hv => ?_, hcheck, hdiagnose, fun config d hd => ?_, hrule, ?_⟩
  · have hname := isName_of_mem_enumValues hd hv
    exact ⟨hname, isValidEnumValue_of_isName hname⟩
  · rw [lintSource_diagnostics] at hd
    exact hdiagnose config.settings d (List.mem_of_mem_filter hd)
  · exact diagnose_without_silent hrule hcheck

/-- The rule itself tells identifiers from other texts. -/
example : isValidEnumValue "É9" = true ∧ isValidEnumValue "9A" = false := by decide +kernel

end SchemaLint
