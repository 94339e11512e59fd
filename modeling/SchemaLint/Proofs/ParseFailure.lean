import SchemaLint.Proofs.LineBounds
import SchemaLint.Proofs.Sdl.Thickening

/-!
# Texts that cannot be read

A schema is read twice: with its comment lines blanked out, for the rules, and with them
left out, for composition. The second text has less white space than the first, so what
the first reading accepts the second accepts as well. The other way round there is one
exception. A quoted string may have a line feed right behind its opening quote but no
other line break, and where white space or a comment line next to that line feed is gone
from the second text, only the first reading finds the string broken.
-/

namespace SchemaLint

open Sdl Source Federation Rule

theorem read_maskCommentLines {source : String}
    (hwhole : ∀ l ∈ lexemes (maskCommentLines source), ¬ l.OpensBroken)
    (h : (read (stripCommentLines source)).faults = []) :
    (read (maskCommentLines source)).faults = [] := by
  have hvalue : ∀ v w, (lineLikeness source).value v w := fun _ _ => trivial
  exact read_of_thins_unbroken hvalue (thins_maskCommentLines source) (sameLine_ending source)
    hwhole h

theorem not_opensBroken_of_read {text : String} (h : (read text).faults = []) {l : Lexeme}
    (hl : l ∈ lexemes text) : ¬ l.OpensBroken := by
  have hlexical := ((read_faults_eq_nil_iff text).mp h).1
  exact fun hbroken => lexicalFaults_eq_nil_iff.mp hlexical l hl _ hbroken.1

/-- The two readings fail together, but for strings that open broken. -/
theorem read_maskCommentLines_ne_nil_iff (source : String) :
    (read (maskCommentLines source)).faults ≠ [] ↔
      (read (stripCommentLines source)).faults ≠ [] ∨
        ∃ l ∈ lexemes (maskCommentLines source), l.OpensBroken := by
  constructor
  · intro hmask
    by_contra hneither
    push Not at hneither
    exact hmask (read_maskCommentLines hneither.2 hneither.1)
  · rintro (hstrip | ⟨l, hl, hbroken⟩) hmask
    · exact hstrip (read_stripCommentLines hmask).1
    · exact not_opensBroken_of_read hmask hl hbroken

/-! ## What composition tells about such texts -/

def parseFailureMark : String := "Schema could not be parsed: "

/-- The errors only say that the schema could not be parsed, and they do say it. -/
def IsParseFailure (errors : List CompositionError) : Prop :=
  errors ≠ [] ∧ ∀ e ∈ errors, ∃ text, e.message = parseFailureMark ++ text

/-- Any other error is about a directive, with whose name it begins. -/
theorem head?_of_mem_keyErrors {declared : List String} {typeName message : String}
    {d : Directive} (h : message ∈ keyErrors declared typeName d) :
    message.toList.head? = some '@' := by
  unfold keyErrors at h
  split at h
  · rw [List.mem_singleton.mp h]
    simp
  · split at h
    · rw [List.mem_singleton.mp h]
      simp
    · rw [List.mem_singleton.mp h]
      simp
    · obtain ⟨name, -, rfl⟩ := List.mem_map.mp h
      simp

theorem head?_of_mem_fieldErrors {typeName field message : String} {d : Directive}
    (h : message ∈ fieldErrors typeName field d) : message.toList.head? = some '@' := by
  unfold fieldErrors at h
  split at h
  · unfold fieldSetErrors at h
    split at h
    · rw [List.mem_singleton.mp h]
      simp
    · split at h
      · rw [List.mem_singleton.mp h]
        simp
      · rw [List.mem_singleton.mp h]
        simp
      · cases h
  · split at h
    · unfold overrideErrors at h
      split at h
      · rw [List.mem_singleton.mp h]
        simp
      · cases h
    · cases h

theorem head?_of_mem_errorsOfDefinitions {text : String} {ds : List Definition}
    {e : CompositionError} (h : e ∈ errorsOfDefinitions text ds) :
    e.message.toList.head? = some '@' := by
  obtain ⟨⟨x, message⟩, hmem, rfl⟩ := List.mem_map.mp h
  obtain ⟨d, -, hmem⟩ := List.mem_flatMap.mp hmem
  rcases List.mem_append.mp hmem with hkey | hfield
  · obtain ⟨_, -, hkey⟩ := List.mem_flatMap.mp hkey
    obtain ⟨_, hkey, heq⟩ := List.mem_map.mp hkey
    cases heq
    exact head?_of_mem_keyErrors hkey
  · obtain ⟨f, -, hfield⟩ := List.mem_flatMap.mp hfield
    obtain ⟨_, -, hfield⟩ := List.mem_flatMap.mp hfield
    obtain ⟨_, hfield, heq⟩ := List.mem_map.mp hfield
    cases heq
    exact head?_of_mem_fieldErrors hfield

theorem ne_parseFailure {message : String} (h : message.toList.head? = some '@') (text : String) :
    message ≠ parseFailureMark ++ text := by
  rintro rfl
  simp [parseFailureMark] at h

theorem compositionErrors_of_unreadable {text : String} (h : (read text).faults ≠ []) :
    compositionErrors text = (syntaxErrors text (read text).faults).map fun e =>
      ⟨e.line, parseFailureMark ++ e.message⟩ := by
  unfold compositionErrors
  dsimp only
  rw [if_neg (by rwa [List.isEmpty_iff])]
  rfl

/-- A text that cannot be read has a composition error that says so, and no other text
has one. -/
theorem exists_parseFailure_iff (text : String) :
    (∃ e ∈ compositionErrors text, ∃ reason, e.message = parseFailureMark ++ reason) ↔
      (read text).faults ≠ [] := by
  constructor
  · rintro ⟨e, he, reason, hmessage⟩ hf
    rw [compositionErrors_of_readable hf] at he
    exact ne_parseFailure (head?_of_mem_errorsOfDefinitions he) reason hmessage
  · intro hf
    obtain ⟨fault, faults, hfaults⟩ := List.exists_cons_of_ne_nil hf
    rw [compositionErrors_of_unreadable hf, hfaults]
    exact ⟨_, List.mem_cons_self, _, rfl⟩

theorem isParseFailure_compositionErrors_iff (text : String) :
    IsParseFailure (compositionErrors text) ↔ (read text).faults ≠ [] := by
  rw [← exists_parseFailure_iff]
  constructor
  · rintro ⟨hne, hall⟩
    obtain ⟨e, es, herrors⟩ := List.exists_cons_of_ne_nil hne
    rw [herrors] at hall ⊢
    exact ⟨e, List.mem_cons_self, hall e List.mem_cons_self⟩
  · intro hsome
    refine ⟨?_, ?_⟩
    · obtain ⟨e, he, -⟩ := hsome
      exact List.ne_nil_of_mem he
    · rw [compositionErrors_of_unreadable ((exists_parseFailure_iff text).mp hsome)]
      intro e he
      obtain ⟨s, -, rfl⟩ := List.mem_map.mp he
      exact ⟨s.message, rfl⟩

/-! ## In a report -/

/-- The diagnostic says that composition could not parse the schema. -/
def Diagnostic.IsParseFailure (d : Diagnostic) : Prop :=
  ∃ text, d.message = composition.id ++ ": " ++ (parseFailureMark ++ text)

theorem exists_mem_syntaxDiagnostics_iff (doc : SchemaDocument) :
    (∃ d, d ∈ doc.syntaxDiagnostics) ↔ doc.syntaxErrors ≠ [] := by
  have hnil : doc.syntaxDiagnostics = [] ↔ doc.syntaxErrors = [] := by
    rw [SchemaDocument.syntaxDiagnostics, SchemaDocument.diagnostics_eq_map, List.map_map,
      List.map_eq_nil_iff]
  rw [ne_eq, ← hnil]
  refine ⟨?_, List.exists_mem_of_ne_nil _⟩
  rintro ⟨d, hd⟩
  exact List.ne_nil_of_mem hd

theorem exists_isParseFailure_check_iff (doc : SchemaDocument) :
    (∃ d ∈ composition.check doc, d.IsParseFailure) ↔
      (read (stripCommentLines doc.source)).faults ≠ [] := by
  rw [← exists_parseFailure_iff, Rule.check, SchemaDocument.diagnostics_eq_map,
    composition_findings, List.map_map]
  have hmessage : ∀ a b : String,
      composition.id ++ ": " ++ a = composition.id ++ ": " ++ b ↔ a = b := by
    intro a b
    rw [← String.toList_inj, String.toList_append, String.toList_append (t := b),
      List.append_cancel_left_eq, String.toList_inj]
  constructor
  · rintro ⟨d, hd, reason, htext⟩
    obtain ⟨e, he, rfl⟩ := List.mem_map.mp hd
    exact ⟨e, he, reason, (hmessage _ _).mp htext⟩
  · rintro ⟨e, he, reason, htext⟩
    exact ⟨_, List.mem_map_of_mem he, reason, (hmessage _ _).mpr htext⟩

theorem ruleId_of_isParseFailure {d : Diagnostic} (h : d.IsParseFailure) :
    d.ruleId = composition.id := by
  obtain ⟨text, htext⟩ := h
  have hcolon : ':' ∉ composition.id.toList := by decide
  have hmake := ruleId_make hcolon d.file d.line (parseFailureMark ++ text) d.lineContent d.value
  rwa [Diagnostic.make, ← htext] at hmake

/-- The diagnostics of a report with nothing suppressed, sorted by what they tell. -/
theorem exists_ruleId_syntaxErrorRule_iff {config : Config} (h : config.suppressions = [])
    (path source : String) :
    (∃ d ∈ (lintSource path source config).diagnostics, d.ruleId = syntaxErrorRule) ↔
      (SchemaDocument.parse path source).syntaxErrors ≠ [] := by
  rw [lintSource_unsuppressed h, ← exists_mem_syntaxDiagnostics_iff, diagnose]
  constructor
  · rintro ⟨d, hd, hid⟩
    rcases List.mem_append.mp hd with herror | hcheck
    · exact ⟨d, herror⟩
    · obtain ⟨rule, hrule, hcheck⟩ := List.mem_flatMap.mp hcheck
      have hmem := List.mem_of_mem_filter hrule
      rw [ruleId_of_mem_check hmem hcheck] at hid
      exact absurd (hid ▸ List.mem_map_of_mem hmem) syntaxErrorRule_not_in_catalogue
  · rintro ⟨d, hd⟩
    exact ⟨d, List.mem_append_left _ hd, ruleId_of_mem_syntaxDiagnostics hd⟩

theorem exists_isParseFailure_iff {config : Config} (h : config.suppressions = [])
    (hfederation : config.settings.validateFederation = true) (path source : String) :
    (∃ d ∈ (lintSource path source config).diagnostics, d.IsParseFailure) ↔
      (read (stripCommentLines source)).faults ≠ [] := by
  have hcheck := exists_isParseFailure_check_iff (.parse path source)
  rw [parse_source] at hcheck
  rw [lintSource_unsuppressed h, ← hcheck, diagnose]
  constructor
  · rintro ⟨d, hd, hfailure⟩
    have hid := ruleId_of_isParseFailure hfailure
    rcases List.mem_append.mp hd with herror | hrules
    · rw [ruleId_of_mem_syntaxDiagnostics herror] at hid
      exact absurd hid (by decide)
    · obtain ⟨rule, hrule, hd⟩ := List.mem_flatMap.mp hrules
      have hmem := List.mem_of_mem_filter hrule
      rw [ruleId_of_mem_check hmem hd] at hid
      rw [catalogue_ext hmem (by simp [catalogue]) hid] at hd
      exact ⟨d, hd, hfailure⟩
  · rintro ⟨d, hd, hfailure⟩
    have hrule : composition ∈ config.settings.rules :=
      List.mem_filter.mpr ⟨by simp [catalogue], hfederation⟩
    exact ⟨d, List.mem_append_right _ (List.mem_flatMap.mpr ⟨_, hrule, hd⟩), hfailure⟩

/-- A schema has syntax errors exactly when composition cannot parse it or a quoted string
in it opens broken. With federation on and nothing suppressed a report shows this. -/
theorem syntaxErrors_ne_nil_iff_isParseFailure (path source : String) :
    ((SchemaDocument.parse path source).syntaxErrors ≠ [] ↔
      IsParseFailure (compositionErrors (stripCommentLines source)) ∨
        ∃ l ∈ lexemes (maskCommentLines source), l.OpensBroken) ∧
    ∀ config : Config, config.settings.validateFederation = true → config.suppressions = [] →
      ((∃ d ∈ (lintSource path source config).diagnostics, d.ruleId = syntaxErrorRule) ↔
        (∃ d ∈ (lintSource path source config).diagnostics, d.IsParseFailure) ∨
          ∃ l ∈ lexemes (maskCommentLines source), l.OpensBroken) := by
  have hread : (SchemaDocument.parse path source).syntaxErrors ≠ [] ↔
      (read (stripCommentLines source)).faults ≠ [] ∨
        ∃ l ∈ lexemes (maskCommentLines source), l.OpensBroken := by
    rw [ne_eq, syntaxErrors_eq_nil_iff, ← ne_eq, read_maskCommentLines_ne_nil_iff]
  refine ⟨?_, fun config hfederation hnone => ?_⟩
  · rw [hread, isParseFailure_compositionErrors_iff]
  · rw [exists_ruleId_syntaxErrorRule_iff hnone, exists_isParseFailure_iff hnone hfederation, hread]

/-- A brace that is not closed, behind a comment line with one that would close it. -/
theorem syntaxErrors_ne_nil_iff_isParseFailure_openBrace :
    (∃ d ∈ (lintSource "schema.graphql" "type Query \x7b\n// \x7d\n" {}).diagnostics,
      d.ruleId = syntaxErrorRule) ∧
    ∃ d ∈ (lintSource "schema.graphql" "type Query \x7b\n// \x7d\n" {}).diagnostics,
      d.IsParseFailure := by
  have herror : ∃ d ∈ (lintSource "schema.graphql" "type Query \x7b\n// \x7d\n" {}).diagnostics,
      d.ruleId = syntaxErrorRule := by
    rw [exists_ruleId_syntaxErrorRule_iff rfl, ne_eq, syntaxErrors_eq_nil_iff,
      read_faults_of_lexical (by decide +kernel)]
    decide +kernel
  have hiff := (syntaxErrors_ne_nil_iff_isParseFailure "schema.graphql"
    "type Query \x7b\n// \x7d\n").2 {} rfl rfl
  refine ⟨herror, (hiff.mp herror).resolve_right ?_⟩
  decide +kernel

/-- A carriage return between a quote and a line feed is a syntax error that composition
does not see. -/
theorem syntaxErrors_carriageReturnInString :
    (SchemaDocument.parse "schema.graphql"
      "type Query @key(fields: \"\r\na\") \x7b a: Int \x7d").syntaxErrors ≠ [] ∧
    ¬ IsParseFailure (compositionErrors (stripCommentLines
      "type Query @key(fields: \"\r\na\") \x7b a: Int \x7d")) := by
  constructor
  · rw [ne_eq, syntaxErrors_eq_nil_iff, read_faults_eq_nil_iff]
    exact fun h => absurd h.1 (by decide +kernel)
  · rw [isParseFailure_compositionErrors_iff, not_not, read_faults_eq_nil_iff]
    exact ⟨by decide +kernel, by decide +kernel⟩

end SchemaLint
