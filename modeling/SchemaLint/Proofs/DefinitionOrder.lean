import Mathlib.Data.List.Perm.Basic
import SchemaLint.Proofs.DocumentOrder
import SchemaLint.Proofs.Provenance

/-!
# The order of definitions does not matter

Some rules judge a definition against the whole document: the types it uses, the types it
defines, the fields that a type and its extensions declare together. Of these only
membership counts, so a rule says the same things, in another order, when the definitions
stand in another order. What is kept of them, what is suppressed and what counts as an
error stays the same. Texts and positions are not moved: only the list of definitions is.
-/

namespace SchemaLint

open Sdl Rule Federation Source

variable {doc : SchemaDocument} {ds es : List Definition}

/-- The document with its definitions given anew, and its text as it was. -/
def SchemaDocument.reordered (doc : SchemaDocument) (ds : List Definition) : SchemaDocument :=
  { doc with definitions := ds }

/-! ## Selections of definitions -/

theorem typesOf_perm (h : ds.Perm doc.definitions) (kind : TypeKind) :
    ((doc.reordered ds).typesOf kind).Perm (doc.typesOf kind) := h.filter _

theorem objects_perm (h : ds.Perm doc.definitions) :
    (doc.reordered ds).objects.Perm doc.objects := h.filter _

theorem withArguments_perm (h : ds.Perm doc.definitions) :
    (withArguments (doc.reordered ds)).Perm (withArguments doc) :=
  (objects_perm h).append (typesOf_perm h .interface)

theorem definesObject_reordered (h : ds.Perm doc.definitions) (name : String) :
    definesObject (doc.reordered ds) name = definesObject doc name :=
  (typesOf_perm h .object).any_eq

theorem ownedEnumValues_perm (h : ds.Perm doc.definitions) :
    (ownedEnumValues (doc.reordered ds)).Perm (ownedEnumValues doc) := h.flatMap_right _

/-! ## Rules on a document in another order -/

/-- In whatever order the definitions stand, the rule finds the same. -/
def Rule.IgnoresOrder (rule : Rule) : Prop :=
  ∀ (doc : SchemaDocument) (ds : List Definition), ds.Perm doc.definitions →
    (rule.findings (doc.reordered ds)).Perm (rule.findings doc)

theorem contains_eq_of_perm {α : Type} [BEq α] [LawfulBEq α] {as bs : List α} (h : as.Perm bs)
    (a : α) : as.contains a = bs.contains a := by
  rw [List.contains_eq_mem, List.contains_eq_mem]
  exact decide_eq_decide.mpr h.mem_iff

/-- A type is unused if no definition uses it, wherever that definition stands. -/
theorem ignoresOrder_definedTypesAreUsed : definedTypesAreUsed.IgnoresOrder := by
  intro doc ds h
  have hused : (usedTypeNames (doc.reordered ds)).Perm (usedTypeNames doc) := h.flatMap_right _
  simp only [definedTypesAreUsed, contains_eq_of_perm hused]
  exact (h.filter _).map _

theorem ignoresOrder_undefinedType : undefinedType.IgnoresOrder := by
  intro doc ds h
  have hknown : (builtInScalars ++ (doc.reordered ds).definedTypeNames).Perm
      (builtInScalars ++ doc.definedTypeNames) := (h.map _).append_left _
  simp only [undefinedType, contains_eq_of_perm hknown]
  exact ((h.flatMap_right _).filter _).map _

theorem ignoresOrder_queryRoot : queryRoot.IgnoresOrder := by
  intro doc ds h
  simp only [queryRoot, definesObject_reordered h]
  exact .refl _

theorem ignoresOrder_relayPageInfo : relayPageInfo.IgnoresOrder := by
  intro doc ds h
  simp only [relayPageInfo, definesObject_reordered h]
  exact .refl _

/-- The composition check reads the text again and so knows nothing of the order. -/
theorem ignoresOrder_composition : composition.IgnoresOrder := by
  intro doc ds _
  rw [composition_findings, composition_findings]
  exact .refl _

theorem ignoresOrder_of_mem_catalogue {rule : Rule} (hrule : rule ∈ catalogue) :
    rule.IgnoresOrder := by
  simp only [catalogue, List.mem_cons, List.not_mem_nil, or_false] at hrule
  rcases hrule with rfl | rfl | rfl | rfl | rfl | rfl | rfl | rfl | rfl | rfl | rfl | rfl | rfl |
    rfl | rfl | rfl | rfl | rfl | rfl | rfl | rfl | rfl | rfl | rfl
  -- Most rules go through definitions of some kind and say something of each.
  · exact fun _ _ h => ((typesOf_perm h _).filter _).map _
  · exact fun _ _ h => ((typesOf_perm h _).filter _).map _
  · exact fun _ _ h => (objects_perm h).flatMap_right _
  · exact fun _ _ h => (objects_perm h).flatMap_right _
  · exact fun _ _ h => (withArguments_perm h).flatMap_right _
  · exact fun _ _ h => (typesOf_perm h _).flatMap_right _
  · exact fun _ _ h => (typesOf_perm h _).flatMap_right _
  · exact fun _ _ h => (typesOf_perm h _).flatMap_right _
  · exact fun _ _ h => (typesOf_perm h _).flatMap_right _
  · exact fun _ _ h => ((h.flatMap_right _).filter _).map _
  · exact fun _ _ h => ((typesOf_perm h _).filterMap _).map _
  · exact fun _ _ h => (typesOf_perm h _).filterMap _
  · exact fun _ _ h => (typesOf_perm h _).filterMap _
  · exact fun _ _ h => (typesOf_perm h _).filterMap _
  · exact ignoresOrder_queryRoot
  · exact ignoresOrder_relayPageInfo
  · exact fun _ _ h => ((typesOf_perm h _).filter _).flatMap_right _
  · exact fun _ _ h => (withArguments_perm h).flatMap_right _
  · exact ignoresOrder_definedTypesAreUsed
  · exact ignoresOrder_undefinedType
  · exact fun _ _ h => ((ownedEnumValues_perm h).filter _).map _
  · exact fun _ _ h => ((ownedEnumValues_perm h).filter _).map _
  · exact fun _ _ h => (objects_perm h).flatMap_right _
  · exact ignoresOrder_composition

theorem check_perm {rule : Rule} (hrule : rule ∈ catalogue) (h : ds.Perm doc.definitions) :
    (rule.check (doc.reordered ds)).Perm (rule.check doc) := by
  rw [Rule.check, Rule.check, SchemaDocument.diagnostics_eq_map,
    SchemaDocument.diagnostics_eq_map]
  exact (ignoresOrder_of_mem_catalogue hrule doc ds h).map _

/-! ## Composition -/

/-- Of the declared fields only membership counts. -/
theorem keyErrors_congr {declared declared' : List String}
    (h : ∀ name, name ∈ declared ↔ name ∈ declared') (typeName : String) (x : Directive) :
    keyErrors declared typeName x = keyErrors declared' typeName x := by
  have hcontains : ∀ name, declared.contains name = declared'.contains name := by
    intro name
    rw [List.contains_eq_mem, List.contains_eq_mem]
    exact decide_eq_decide.mpr (h name)
  simp only [keyErrors, hcontains]

theorem definitionErrors_eq_of_perm (h : es.Perm ds) (d : Definition) :
    definitionErrors es d = definitionErrors ds d := by
  have hdeclared : (declaredFields es d.name.text).Perm (declaredFields ds d.name.text) :=
    (h.filter _).flatMap_right _
  have hkeys : ∀ x, keyErrors (declaredFields es d.name.text) d.name.text x =
      keyErrors (declaredFields ds d.name.text) d.name.text x :=
    fun x => keyErrors_congr (fun _ => hdeclared.mem_iff) _ x
  simp only [definitionErrors, hkeys]

theorem errorsOfDefinitions_perm (text : String) (h : es.Perm ds) :
    (errorsOfDefinitions text es).Perm (errorsOfDefinitions text ds) := by
  have hsame : definitionErrors es = definitionErrors ds :=
    funext (definitionErrors_eq_of_perm h)
  rw [errorsOfDefinitions, errorsOfDefinitions, hsame]
  exact ((h.filter _).flatMap_right _).map _

/-- What the composition check finds when the text without comment lines has these
definitions. -/
def compositionFindings (source : String) (es : List Definition) : List Finding :=
  (errorsOfDefinitions (stripCommentLines source) es).map fun e =>
    ⟨keptLine (keptLineNumbers source) e.line, e.message, none⟩

/-- With the definitions that are read from it, that is what the rule finds. -/
theorem compositionFindings_read {path source : String}
    (h : (SchemaDocument.parse path source).syntaxErrors = []) :
    compositionFindings source (read (stripCommentLines source)).definitions =
      composition.findings (.parse path source) := by
  have hstrip := (read_stripCommentLines (syntaxErrors_eq_nil_iff.mp h)).1
  rw [composition_findings, parse_source, compositionErrors_of_readable hstrip,
    compositionFindings]

/-! ## Reports -/

/-- What the rule reports on a document in another order. The composition check gets its
definitions in another order too. -/
def Rule.checkReordered (rule : Rule) (doc : SchemaDocument) (ds es : List Definition) :
    List Diagnostic :=
  if rule.id = composition.id then doc.diagnostics rule.id (compositionFindings doc.source es)
  else rule.check (doc.reordered ds)

/-- All diagnostics on a document in another order. -/
def diagnoseReordered (settings : Settings) (doc : SchemaDocument) (ds es : List Definition) :
    List Diagnostic :=
  doc.syntaxDiagnostics ++ settings.rules.flatMap (·.checkReordered doc ds es)

theorem composition_check_perm {path source : String}
    (h : (SchemaDocument.parse path source).syntaxErrors = [])
    (hes : es.Perm (read (stripCommentLines source)).definitions) :
    ((SchemaDocument.parse path source).diagnostics composition.id
      (compositionFindings source es)).Perm (composition.check (.parse path source)) := by
  rw [Rule.check, ← compositionFindings_read h, SchemaDocument.diagnostics_eq_map,
    SchemaDocument.diagnostics_eq_map]
  exact ((errorsOfDefinitions_perm _ hes).map _).map _

theorem checkReordered_perm {path source : String}
    (h : (SchemaDocument.parse path source).syntaxErrors = [])
    (hds : ds.Perm (SchemaDocument.parse path source).definitions)
    (hes : es.Perm (read (stripCommentLines source)).definitions) {rule : Rule}
    (hrule : rule ∈ catalogue) :
    (rule.checkReordered (.parse path source) ds es).Perm (rule.check (.parse path source)) := by
  unfold Rule.checkReordered
  split
  · next hid =>
    obtain rfl := catalogue_ext hrule (by simp [catalogue]) hid
    rw [parse_source]
    exact composition_check_perm h hes
  · exact check_perm hrule hds

theorem diagnoseReordered_perm {path source : String}
    (h : (SchemaDocument.parse path source).syntaxErrors = [])
    (hds : ds.Perm (SchemaDocument.parse path source).definitions)
    (hes : es.Perm (read (stripCommentLines source)).definitions) (settings : Settings) :
    (diagnoseReordered settings (.parse path source) ds es).Perm
      (diagnose settings (.parse path source)) := by
  refine (List.Perm.flatMap_left _ fun rule hrule => ?_).append_left _
  exact checkReordered_perm h hds hes (List.mem_filter.mp hrule).1

theorem errorCount_eq_of_perm {r s : FileReport} (h : r.diagnostics.Perm s.diagnostics) :
    r.errorCount = s.errorCount := by
  simp only [FileReport.errorCount, FileReport.has, h.countP_eq, h.any_eq]

theorem retain_perm (config : Config) (path : String) {as bs : List Diagnostic}
    (h : as.Perm bs) :
    (config.retain path as).diagnostics.Perm (config.retain path bs).diagnostics ∧
      (config.retain path as).suppressed = (config.retain path bs).suppressed ∧
      (config.retain path as).errorCount = (config.retain path bs).errorCount := by
  have hkept : (config.retain path as).diagnostics.Perm (config.retain path bs).diagnostics :=
    h.filter _
  exact ⟨hkept, h.countP_eq _, errorCount_eq_of_perm hkept⟩

/-- Of a document without syntax errors every rule reports the same, in some order, when
the definitions stand in another order; so does the composition check on the definitions
of the text without comment lines. Reports then keep the same diagnostics and have the
same counts. -/
theorem check_perm_of_definitions_perm {path source : String}
    (h : (SchemaDocument.parse path source).syntaxErrors = [])
    (hds : ds.Perm (SchemaDocument.parse path source).definitions)
    (hes : es.Perm (read (stripCommentLines source)).definitions) :
    let doc := SchemaDocument.parse path source
    (∀ rule ∈ catalogue, (rule.check (doc.reordered ds)).Perm (rule.check doc)) ∧
    (errorsOfDefinitions (stripCommentLines source) es).Perm
      (compositionErrors (stripCommentLines source)) ∧
    (doc.diagnostics composition.id (compositionFindings source es)).Perm
      (composition.check doc) ∧
    ∀ config : Config,
      let report := config.retain path (diagnoseReordered config.settings doc ds es)
      report.diagnostics.Perm (lintSource path source config).diagnostics ∧
        report.suppressed = (lintSource path source config).suppressed ∧
        report.errorCount = (lintSource path source config).errorCount := by
  intro doc
  have hstrip := (read_stripCommentLines (syntaxErrors_eq_nil_iff.mp h)).1
  refine ⟨fun rule hrule => check_perm hrule hds, ?_, composition_check_perm h hes,
    fun config => ?_⟩
  · rw [compositionErrors_of_readable hstrip]
    exact errorsOfDefinitions_perm _ hes
  · rw [lintSource]
    exact retain_perm config path (diagnoseReordered_perm h hds hes config.settings)

/-- A key on a field of an extension that follows, and a type used before it is defined. -/
def keyOfExtension : String :=
  "type Query @key(fields: \"b\")\n//\nextend type Query \x7b b: U \x7d\nenum U \x7b A \x7d"

theorem check_perm_of_definitions_perm_keyOfExtension :
    let doc := SchemaDocument.parse "schema.graphql" keyOfExtension
    let ds := doc.definitions.reverse
    let es := (read (stripCommentLines keyOfExtension)).definitions.reverse
    doc.syntaxErrors = [] ∧ ds.Perm doc.definitions ∧
      es.Perm (read (stripCommentLines keyOfExtension)).definitions ∧
      definedTypesAreUsed ∈ catalogue ∧
      (definedTypesAreUsed.check (doc.reordered ds)).Perm (definedTypesAreUsed.check doc) ∧
      (doc.diagnostics composition.id (compositionFindings keyOfExtension es)).Perm
        (composition.check doc) := by
  intro doc ds es
  have hreadable : doc.syntaxErrors = [] :=
    syntaxErrors_eq_nil (by decide +kernel) (by decide +kernel)
  have hds : ds.Perm doc.definitions := List.reverse_perm _
  have hes : es.Perm (read (stripCommentLines keyOfExtension)).definitions := List.reverse_perm _
  have hmem : definedTypesAreUsed ∈ catalogue := by simp [catalogue]
  obtain ⟨hrules, -, hcomposition, -⟩ := check_perm_of_definitions_perm hreadable hds hes
  exact ⟨hreadable, hds, hes, hmem, hrules _ hmem, hcomposition⟩

end SchemaLint
