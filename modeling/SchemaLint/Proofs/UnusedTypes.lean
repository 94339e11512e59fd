import SchemaLint.Proofs.DefinitionOrder
import SchemaLint.Proofs.ReferenceLines

/-!
# Unused types can be taken out

Two rules walk over the references of a document, each in its own way. One collects the
names of the types that are used, the other looks every reference up among the types that
are defined. Both walks see the same references, and the first sees the members of unions
besides. So nothing refers to a type that is reported as unused: with its definition gone,
every other reference is as defined or undefined as it was before.
-/

namespace SchemaLint

open Sdl Rule

/-- Base names of the types that the rule on undefined types looks up. -/
def examinedTypeNames (doc : SchemaDocument) : List String :=
  (doc.definitions.flatMap references).map (·.type.base)

/-- Members of union types and of their extensions. -/
def unionMemberNames (doc : SchemaDocument) : List String :=
  doc.definitions.flatMap (·.body.unionMembers)

section Walks

variable {doc : SchemaDocument} {name : String}

/-- Fields, arguments and input fields of every definition and extension are looked up. -/
theorem mem_examinedTypeNames_iff :
    name ∈ examinedTypeNames doc ↔ ∃ d ∈ doc.definitions, d.RefersTo name := by
  simp only [examinedTypeNames, List.mem_map, List.mem_flatMap, ← exists_references_iff]
  constructor
  · rintro ⟨r, ⟨d, hd, hr⟩, hbase⟩
    exact ⟨d, hd, r, hr, hbase⟩
  · rintro ⟨d, hd, r, hr, hbase⟩
    exact ⟨r, ⟨d, hd, hr⟩, hbase⟩

theorem mem_unionMemberNames_iff :
    name ∈ unionMemberNames doc ↔ ∃ d ∈ doc.definitions, name ∈ d.body.unionMembers :=
  List.mem_flatMap

/-- The two walks agree, but for the members of unions. -/
theorem mem_usedTypeNames_iff :
    name ∈ usedTypeNames doc ↔ name ∈ examinedTypeNames doc ∨ name ∈ unionMemberNames doc := by
  rw [mem_examinedTypeNames_iff, mem_unionMemberNames_iff, usedTypeNames, List.mem_flatMap]
  simp only [mem_usedTypes_iff, and_or_left, exists_or]

end Walks

/-! ## What is reported as unused -/

/-- A type definition that no reference and no union names, and that is no root of operations. -/
structure SchemaDocument.Unused (doc : SchemaDocument) (d : Definition) : Prop where
  defines : d.isExtension = false
  notRoot : d.name.text ∉ rootOperationTypes
  notExamined : d.name.text ∉ examinedTypeNames doc
  notMember : d.name.text ∉ unionMemberNames doc

theorem unused_iff {doc : SchemaDocument} {d : Definition} :
    doc.Unused d ↔ d.isExtension = false ∧ d.name.text ∉ rootOperationTypes ∧
      d.name.text ∉ usedTypeNames doc := by
  rw [mem_usedTypeNames_iff, not_or]
  constructor
  · intro h
    exact ⟨h.defines, h.notRoot, h.notExamined, h.notMember⟩
  · rintro ⟨hdefines, hroot, hexamined, hmember⟩
    exact ⟨hdefines, hroot, hexamined, hmember⟩

instance (doc : SchemaDocument) : DecidablePred doc.Unused := fun _ =>
  decidable_of_iff _ unused_iff.symm

/-- The report on an unused type, at its name. -/
def unusedDiagnostic (doc : SchemaDocument) (d : Definition) : Diagnostic :=
  doc.diagnostic definedTypesAreUsed.id (doc.finding d.name
    ("The type " ++ ticked d.name.text ++ " is defined in the schema but not used anywhere."))

theorem definedTypesAreUsed_check_eq (doc : SchemaDocument) :
    definedTypesAreUsed.check doc =
      (doc.definitions.filter (doc.Unused ·)).map (unusedDiagnostic doc) := by
  have hkept : (doc.definitions.filter fun d =>
      !d.isExtension && !rootOperationTypes.contains d.name.text &&
        !(usedTypeNames doc).contains d.name.text) = doc.definitions.filter (doc.Unused ·) := by
    apply List.filter_congr
    intro d _
    rw [Bool.eq_iff_iff, decide_eq_true_eq, unused_iff]
    simp [and_assoc]
  rw [Rule.check, SchemaDocument.diagnostics_eq_map, ← hkept]
  exact List.map_map

/-! ## What is reported as undefined -/

/-- What the rule on undefined types reports on the fields, arguments and input fields of
some definitions of a document. -/
def undefinedDiagnostics (doc : SchemaDocument) (ds : List Definition) : List Diagnostic :=
  ((ds.flatMap references).filter fun r =>
    !(builtInScalars ++ doc.definedTypeNames).contains r.type.base).map fun r =>
      doc.diagnostic undefinedType.id (undefinedFinding doc r)

theorem undefinedType_check_eq_definitions (doc : SchemaDocument) :
    undefinedType.check doc = undefinedDiagnostics doc doc.definitions :=
  undefinedType_check_eq doc

theorem undefinedDiagnostics_append (doc : SchemaDocument) (ds es : List Definition) :
    undefinedDiagnostics doc (ds ++ es) =
      undefinedDiagnostics doc ds ++ undefinedDiagnostics doc es := by
  simp only [undefinedDiagnostics, List.flatMap_append, List.filter_append, List.map_append]

section Removal

variable {doc : SchemaDocument} {before after : List Definition} {d : Definition}

/-- Of the names that are defined, only that of the definition itself can be lost. -/
theorem mem_definedTypeNames_without (h : doc.definitions = before ++ d :: after) {name : String}
    (hname : name ≠ d.name.text) :
    name ∈ (doc.reordered (before ++ after)).definedTypeNames ↔ name ∈ doc.definedTypeNames := by
  simp only [SchemaDocument.definedTypeNames, SchemaDocument.reordered, h, List.map_append,
    List.map_cons, List.mem_append, List.mem_cons, hname, false_or]

/-- A reference that stays is judged as before, since it is not to the type whose definition
is gone. -/
theorem contains_base_without (h : doc.definitions = before ++ d :: after)
    (hd : d.name.text ∉ examinedTypeNames doc) {r : Reference}
    (hr : r ∈ (before ++ after).flatMap references) :
    (builtInScalars ++ (doc.reordered (before ++ after)).definedTypeNames).contains r.type.base =
      (builtInScalars ++ doc.definedTypeNames).contains r.type.base := by
  have hne : r.type.base ≠ d.name.text := by
    intro heq
    apply hd
    rw [← heq, examinedTypeNames, h]
    apply List.mem_map_of_mem
    simp only [List.flatMap_append, List.flatMap_cons, List.mem_append] at hr ⊢
    rcases hr with hr | hr
    · exact .inl hr
    · exact .inr (.inr hr)
  rw [Bool.eq_iff_iff, List.contains_iff_mem, List.contains_iff_mem, List.mem_append,
    List.mem_append, mem_definedTypeNames_without h hne]

theorem undefinedType_check_without (h : doc.definitions = before ++ d :: after)
    (hd : d.name.text ∉ examinedTypeNames doc) :
    undefinedType.check (doc.reordered (before ++ after)) =
      undefinedDiagnostics doc (before ++ after) := by
  rw [undefinedType_check_eq_definitions, undefinedDiagnostics, undefinedDiagnostics]
  -- Lines are searched in the text, which is still the same, so only the filter can differ.
  apply congrArg (List.map _)
  apply List.filter_congr
  intro r hr
  rw [contains_base_without h hd hr]

end Removal

/-- The walk that collects the used types and the walk that looks references up agree, but for
the members of unions. A type is reported as unused if neither walk meets its name, and taking
its definition out of the document then leaves all reports on undefined types as they were,
those on its own members apart. -/
theorem unused_removal_keeps_undefined (doc : SchemaDocument) :
    (∀ name, name ∈ usedTypeNames doc ↔
      name ∈ examinedTypeNames doc ∨ name ∈ unionMemberNames doc) ∧
    (∀ name, name ∈ examinedTypeNames doc ↔ ∃ d ∈ doc.definitions, d.RefersTo name) ∧
    (∀ name, name ∈ unionMemberNames doc ↔ ∃ d ∈ doc.definitions, name ∈ d.body.unionMembers) ∧
    definedTypesAreUsed.check doc =
      (doc.definitions.filter (doc.Unused ·)).map (unusedDiagnostic doc) ∧
    undefinedType.check doc = undefinedDiagnostics doc doc.definitions ∧
    ∀ (before : List Definition) (d : Definition) (after : List Definition),
      doc.definitions = before ++ d :: after → doc.Unused d →
        undefinedType.check doc = undefinedDiagnostics doc before ++
          undefinedDiagnostics doc [d] ++ undefinedDiagnostics doc after ∧
        undefinedType.check (doc.reordered (before ++ after)) =
          undefinedDiagnostics doc before ++ undefinedDiagnostics doc after ∧
        (undefinedType.check (doc.reordered (before ++ after))).Sublist
          (undefinedType.check doc) := by
  refine ⟨fun _ => mem_usedTypeNames_iff, fun _ => mem_examinedTypeNames_iff,
    fun _ => mem_unionMemberNames_iff, definedTypesAreUsed_check_eq doc,
    undefinedType_check_eq_definitions doc, fun before d after h hunused => ?_⟩
  have hall : undefinedType.check doc = undefinedDiagnostics doc before ++
      undefinedDiagnostics doc [d] ++ undefinedDiagnostics doc after := by
    rw [undefinedType_check_eq_definitions, h, ← undefinedDiagnostics_append,
      ← undefinedDiagnostics_append, List.append_assoc, List.singleton_append]
  have hrest : undefinedType.check (doc.reordered (before ++ after)) =
      undefinedDiagnostics doc before ++ undefinedDiagnostics doc after := by
    rw [undefinedType_check_without h hunused.notExamined, undefinedDiagnostics_append]
  refine ⟨hall, hrest, ?_⟩
  rw [hall, hrest]
  exact (List.sublist_append_left _ _).append_right _

/-- An unused type with a reference of its own that is undefined, as one elsewhere is. -/
def orphanText : String :=
  "type Query \x7b a: Missing \x7d\ntype Orphan \x7b b(c: Gone): Query \x7d\nunion U = Query"

theorem unused_removal_keeps_undefined_orphan :
    let doc := SchemaDocument.parse "schema.graphql" orphanText
    ∃ before d after, doc.definitions = before ++ d :: after ∧ doc.Unused d ∧
      d.name.text = "Orphan" ∧ (undefinedDiagnostics doc [d]).map (·.text) =
        ["Argument 'Orphan.b(c:)' references undefined type 'Gone'."] ∧
      undefinedType.check (doc.reordered (before ++ after)) =
        undefinedDiagnostics doc before ++ undefinedDiagnostics doc after ∧
      (undefinedType.check (doc.reordered (before ++ after))).map (·.text) =
        ["Field 'Query.a' references undefined type 'Missing'."] := by
  intro doc
  have hsecond : (doc.definitions[1]?.any fun d => doc.Unused d ∧ d.name.text = "Orphan" ∧
      (undefinedDiagnostics doc [d]).map (·.text) =
        ["Argument 'Orphan.b(c:)' references undefined type 'Gone'."]) = true := by
    decide +kernel
  obtain ⟨d, hd, hfacts⟩ := (Option.any_eq_true _ _).mp hsecond
  obtain ⟨hunused, hname, howned⟩ := of_decide_eq_true hfacts
  obtain ⟨hlength, rfl⟩ := List.getElem?_eq_some_iff.mp hd
  have hsplit : doc.definitions =
      doc.definitions.take 1 ++ doc.definitions[1] :: doc.definitions.drop 2 := by
    rw [List.getElem_cons_drop, List.take_append_drop]
  obtain ⟨-, -, -, -, -, hremoval⟩ := unused_removal_keeps_undefined doc
  obtain ⟨-, hrest, -⟩ := hremoval _ _ _ hsplit hunused
  exact ⟨_, _, _, hsplit, hunused, hname, howned, hrest, by decide +kernel⟩

end SchemaLint
