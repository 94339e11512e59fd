import SchemaLint.Catalogue
import SchemaLint.Proofs.CommentLines
import SchemaLint.Proofs.Selection

/-!
# Diagnostics in the order of the document

Rules go through the definitions of a document from front to back and speak of the
names and directives in them. In a document without syntax errors these stand in the
order of the text, so the lines of what one rule reports never go down. The two rules
on arguments are the exception: they go through the document twice, first for object
types and then for interfaces.
-/

namespace SchemaLint

open Sdl Source Text Rule Federation

/-! ## Findings along marks -/

/-- Findings on the lines of marks, in the order of the marks. -/
structure Located (line : Nat → Nat) (ms : List Mark) (fs : List Finding) : Prop where
  mem : ∀ f ∈ fs, f.line ∈ ms.map (line ·.offset)
  sorted : (ms.map (line ·.offset)).Pairwise (· ≤ ·) → fs.Pairwise (·.line ≤ ·.line)

namespace Located

variable {line : Nat → Nat} {ms ms' : List Mark} {fs fs' : List Finding} {α : Type}
  {xs : List α} {marks : α → List Mark}

theorem nil : Located line ms [] := ⟨by simp, fun _ => .nil⟩

/-- Findings that are all about the same mark. -/
theorem const {m : Mark} (hm : m ∈ ms) (h : ∀ f ∈ fs, f.line = line m.offset) :
    Located line ms fs := by
  refine ⟨fun f hf => ?_, fun _ => ?_⟩
  · rw [h f hf]
    exact List.mem_map_of_mem hm
  · refine List.pairwise_of_forall_mem_list fun f hf g hg => ?_
    exact Nat.le_of_eq ((h f hf).trans (h g hg).symm)

theorem single {m : Mark} {f : Finding} (hm : m ∈ ms) (h : f.line = line m.offset) :
    Located line ms [f] :=
  .const hm (by simpa using h)

/-- Only the lines of the marks matter. -/
theorem transfer {line' : Nat → Nat} (h : Located line ms fs)
    (heq : ms'.map (line' ·.offset) = ms.map (line ·.offset)) : Located line' ms' fs :=
  ⟨heq ▸ h.mem, heq ▸ h.sorted⟩

/-- What a finding says besides its line does not matter. -/
theorem map {g : Finding → Finding} (h : Located line ms fs) (hg : ∀ f, (g f).line = f.line) :
    Located line ms (fs.map g) := by
  refine ⟨fun f hf => ?_, fun hs => ?_⟩
  · obtain ⟨f₀, hf₀, rfl⟩ := List.mem_map.mp hf
    rw [hg]
    exact h.mem f₀ hf₀
  · rw [List.pairwise_map]
    refine (h.sorted hs).imp fun {a b} hab => ?_
    rw [hg, hg]
    exact hab

theorem sublist (h : Located line ms fs) (hms : ms.Sublist ms') : Located line ms' fs :=
  ⟨fun f hf => (hms.map _).subset (h.mem f hf), fun hs => h.sorted (hs.sublist (hms.map _))⟩

theorem append (h : Located line ms fs) (h' : Located line ms' fs') :
    Located line (ms ++ ms') (fs ++ fs') := by
  refine ⟨fun f hf => ?_, fun hs => ?_⟩
  · rw [List.map_append]
    rcases List.mem_append.mp hf with hf | hf
    · exact List.mem_append_left _ (h.mem f hf)
    · exact List.mem_append_right _ (h'.mem f hf)
  · rw [List.map_append] at hs
    obtain ⟨hs, hs', hcross⟩ := List.pairwise_append.mp hs
    exact List.pairwise_append.mpr ⟨h.sorted hs, h'.sorted hs', fun f hf g hg =>
      hcross _ (h.mem f hf) _ (h'.mem g hg)⟩

/-- Findings on what passes a test, block by block. -/
theorem filter_flatMap {p : α → Bool} {f : α → List Finding}
    (h : ∀ x ∈ xs, Located line (marks x) (f x)) :
    Located line (xs.flatMap marks) ((xs.filter p).flatMap f) := by
  induction xs with
  | nil => exact nil
  | cons x xs ih =>
    have hrest := ih fun x hx => h x (List.mem_cons_of_mem _ hx)
    rw [List.flatMap_cons]
    by_cases hp : p x = true
    · rw [List.filter_cons_of_pos hp, List.flatMap_cons]
      exact (h x List.mem_cons_self).append hrest
    · rw [List.filter_cons_of_neg hp]
      exact hrest.sublist (List.sublist_append_right _ _)

theorem flatMap {f : α → List Finding} (h : ∀ x ∈ xs, Located line (marks x) (f x)) :
    Located line (xs.flatMap marks) (xs.flatMap f) := by
  have hall := filter_flatMap (p := fun _ => true) h
  rwa [List.filter_true] at hall

theorem filter_map {p : α → Bool} {f : α → Finding}
    (h : ∀ x ∈ xs, Located line (marks x) [f x]) :
    Located line (xs.flatMap marks) ((xs.filter p).map f) := by
  rw [← List.flatMap_singleton' ((xs.filter p).map f), List.flatMap_map]
  exact filter_flatMap h

end Located

/-! ## The rules -/

theorem flatMap_sublist_flatMap {α β : Type} {xs : List α} {f g : α → List β}
    (h : ∀ x ∈ xs, (f x).Sublist (g x)) : (xs.flatMap f).Sublist (xs.flatMap g) := by
  induction xs with
  | nil => exact .refl _
  | cons x xs ih =>
    rw [List.flatMap_cons, List.flatMap_cons]
    exact (h x List.mem_cons_self).append (ih fun x hx => h x (List.mem_cons_of_mem _ hx))

section Members

variable {line : Nat → Nat} (d : Definition)

/-- Findings at fields that pass a test. -/
theorem located_fields {p : Field → Bool} {f : Field → Finding}
    (h : ∀ x, (f x).line = line x.name.offset) :
    Located line d.marks ((d.body.fields.filter p).map f) := by
  refine Located.sublist (.filter_map fun x _ => ?_) d.fields_marks_sublist
  exact .single x.name_mem_marks (h x)

theorem located_inputFields {p : InputValue → Bool} {f : InputValue → Finding}
    (h : ∀ x, (f x).line = line x.name.offset) :
    Located line d.marks ((d.body.inputFields.filter p).map f) := by
  refine Located.sublist (.filter_map fun x _ => ?_) d.inputFields_marks_sublist
  exact .single x.name_mem_marks (h x)

theorem located_enumValues {p : EnumValue → Bool} {f : EnumValue → Finding}
    (h : ∀ x, (f x).line = line x.name.offset) :
    Located line d.marks ((d.body.enumValues.filter p).map f) := by
  refine Located.sublist (.filter_map fun x _ => ?_) d.enumValues_marks_sublist
  exact .single x.name_mem_marks (h x)

/-- Findings at arguments of fields. -/
theorem located_arguments {p : Field → InputValue → Bool} {f : Field → InputValue → Finding}
    (h : ∀ x a, (f x a).line = line a.name.offset) :
    Located line d.marks (d.body.fields.flatMap fun x =>
      (x.arguments.filter (p x)).map (f x)) := by
  refine Located.sublist (.flatMap fun x _ => ?_) d.fields_marks_sublist
  refine Located.sublist (.filter_map fun a _ => ?_)
    ((List.sublist_append_right _ _).trans (List.sublist_append_left _ _))
  exact .single a.name_mem_marks (h x a)

theorem located_directiveList {ds : List Directive} {p : Directive → Bool}
    {f : Directive → List Finding} (h : ∀ x, ∀ y ∈ f x, y.line = line x.offset) :
    Located line (ds.flatMap Directive.marks) ((ds.filter p).flatMap f) :=
  .filter_flatMap fun x _ => .const List.mem_cons_self (h x)

/-- Findings at the directives of a definition, and then at those of its fields. -/
theorem located_directives {p : Directive → Bool} {q : Field → Directive → Bool}
    {f : Directive → List Finding} {g : Field → Directive → List Finding}
    (hf : ∀ x, ∀ y ∈ f x, y.line = line x.offset)
    (hg : ∀ x e, ∀ y ∈ g x e, y.line = line e.offset) :
    Located line d.marks ((d.directives.filter p).flatMap f ++
      d.body.fields.flatMap fun x => (x.directives.filter (q x)).flatMap (g x)) := by
  have hfields : Located line (d.body.fields.flatMap Field.marks)
      (d.body.fields.flatMap fun x => (x.directives.filter (q x)).flatMap (g x)) :=
    .flatMap fun x _ => (located_directiveList (hg x)).sublist (List.sublist_append_right _ _)
  have hbody : (d.body.fields.flatMap Field.marks).Sublist d.body.marks := by
    cases d.body <;> simp [Body.marks, Body.fields]
  refine ((located_directiveList hf).append hfields).sublist ?_
  exact (List.sublist_append_right _ _).append hbody

end Members

section Rules

variable (doc : SchemaDocument)

/-- The names and directives of a document in the order of its definitions. -/
def SchemaDocument.marks : List Mark := doc.definitions.flatMap Definition.marks

/-- The rule reports on lines of what the document holds, in the order of the document. -/
def Rule.Follows (rule : Rule) : Prop :=
  Located doc.lineOfOffset doc.marks (rule.findings doc)

variable {doc}

/-- Findings at names of definitions. -/
theorem located_names {p : Definition → Bool} {f : Definition → Finding}
    (h : ∀ d, (f d).line = doc.lineOfOffset d.name.offset) :
    Located doc.lineOfOffset doc.marks ((doc.definitions.filter p).map f) :=
  .filter_map fun d _ => .single d.name_mem_marks (h d)

theorem follows_typesAreCapitalized : typesAreCapitalized.Follows doc := by
  unfold Rule.Follows typesAreCapitalized SchemaDocument.typesOf
  dsimp only
  rw [List.filter_filter]
  exact located_names fun _ => rfl

theorem follows_typesHaveDescriptions : typesHaveDescriptions.Follows doc := by
  unfold Rule.Follows typesHaveDescriptions SchemaDocument.typesOf
  dsimp only
  rw [List.filter_filter]
  exact located_names fun _ => rfl

theorem follows_fieldsHaveDescriptions : fieldsHaveDescriptions.Follows doc :=
  .filter_flatMap fun d _ => located_fields d fun _ => rfl

theorem follows_fieldsAreCamelCased : fieldsAreCamelCased.Follows doc :=
  .filter_flatMap fun d _ => located_fields d fun _ => rfl

theorem follows_enumValuesHaveDescriptions : enumValuesHaveDescriptions.Follows doc :=
  .filter_flatMap fun d _ => located_enumValues d fun _ => rfl

theorem follows_inputValuesHaveDescriptions : inputValuesHaveDescriptions.Follows doc :=
  .filter_flatMap fun d _ => located_inputFields d fun _ => rfl

theorem follows_inputValuesAreCamelCased : inputValuesAreCamelCased.Follows doc :=
  .filter_flatMap fun d _ => located_inputFields d fun _ => rfl

theorem follows_deprecationsHaveAReason : deprecationsHaveAReason.Follows doc :=
  .filter_flatMap fun d _ => located_enumValues d fun _ => rfl

theorem follows_definedTypesAreUsed : definedTypesAreUsed.Follows doc :=
  located_names fun _ => rfl

theorem follows_relayConnectionTypes : relayConnectionTypes.Follows doc := by
  unfold Rule.Follows relayConnectionTypes SchemaDocument.typesOf
  dsimp only
  rw [List.filter_filter]
  refine .filter_flatMap fun d _ => .const d.name_mem_marks fun f hf => ?_
  obtain ⟨r, -, rfl⟩ := List.mem_map.mp hf
  rfl

theorem follows_invalidEnumValue : invalidEnumValue.Follows doc := by
  unfold Rule.Follows invalidEnumValue ownedEnumValues
  dsimp only
  rw [List.filter_flatMap, List.map_flatMap]
  refine .flatMap fun d _ => ?_
  rw [List.filter_map, List.map_map]
  exact located_enumValues d fun _ => rfl

theorem follows_suspiciousEnumValue : suspiciousEnumValue.Follows doc := by
  unfold Rule.Follows suspiciousEnumValue ownedEnumValues
  dsimp only
  rw [List.filter_flatMap, List.map_flatMap]
  refine .flatMap fun d _ => ?_
  rw [List.filter_map, List.map_map]
  exact located_enumValues d fun _ => rfl

/-- The place of a complaint about order is one of the members. -/
theorem located_unsortedTypes {kind : TypeKind} {subject : String}
    {members : Definition → List Name} (h : ∀ d, ∀ n ∈ members d, .name n ∈ d.marks) :
    Located doc.lineOfOffset doc.marks (unsortedTypes doc kind subject members) := by
  unfold unsortedTypes
  rw [List.filterMap_eq_flatMap_toList]
  refine .filter_flatMap fun d _ => ?_
  cases hf : unsorted? doc (subject ++ " " ++ ticked d.name.text) (members d) with
  | none => exact .nil
  | some f =>
    obtain ⟨index, -, hmember⟩ := Option.bind_eq_some_iff.mp hf
    obtain ⟨member, hget, rfl⟩ := Option.map_eq_some_iff.mp hmember
    exact .single (h d member (List.mem_of_getElem? hget)) rfl

theorem mem_marks_of_enumValue {d : Definition} {n : Name}
    (h : n ∈ d.body.enumValues.map (·.name)) : .name n ∈ d.marks := by
  obtain ⟨v, hv, rfl⟩ := List.mem_map.mp h
  exact d.enumValues_marks_sublist.subset (List.mem_flatMap.mpr ⟨v, hv, v.name_mem_marks⟩)

theorem mem_marks_of_inputField {d : Definition} {n : Name}
    (h : n ∈ d.body.inputFields.map (·.name)) : .name n ∈ d.marks := by
  obtain ⟨v, hv, rfl⟩ := List.mem_map.mp h
  exact d.inputFields_marks_sublist.subset (List.mem_flatMap.mpr ⟨v, hv, v.name_mem_marks⟩)

theorem mem_marks_of_field {d : Definition} {n : Name}
    (h : n ∈ d.body.fields.map (·.name)) : .name n ∈ d.marks := by
  obtain ⟨v, hv, rfl⟩ := List.mem_map.mp h
  exact d.fields_marks_sublist.subset (List.mem_flatMap.mpr ⟨v, hv, v.name_mem_marks⟩)

theorem follows_enumValuesSorted : enumValuesSorted.Follows doc :=
  (located_unsortedTypes fun _ _ => mem_marks_of_enumValue).map fun _ => rfl

theorem follows_inputFieldsSorted : inputFieldsSorted.Follows doc :=
  located_unsortedTypes fun _ _ => mem_marks_of_inputField

theorem follows_typeFieldsSorted : typeFieldsSorted.Follows doc :=
  located_unsortedTypes fun _ _ => mem_marks_of_field

theorem follows_interfaceFieldsSorted : interfaceFieldsSorted.Follows doc :=
  located_unsortedTypes fun _ _ => mem_marks_of_field

theorem follows_invalidDirective : invalidDirective.Follows doc := by
  refine .filter_flatMap fun d _ => ?_
  unfold unknownDirectives
  simp only [List.map_eq_flatMap]
  exact located_directives d (by simp) (by simp)

theorem describedField_sublist (owner : String) (f : Field) :
    ((describedField owner f).flatMap fun p => [Mark.name p.name]).Sublist f.marks := by
  rw [describedField, List.flatMap_cons, List.flatMap_map]
  refine .trans ?_ (List.sublist_append_left _ _)
  refine (List.Sublist.refl _).append (flatMap_sublist_flatMap fun a _ => ?_)
  exact List.sublist_append_left _ _

theorem describedMembers_sublist (d : Definition) :
    ((describedMembers d).flatMap fun p => [Mark.name p.name]).Sublist d.body.marks := by
  have hfields : ∀ fs : List Field,
      ((fs.flatMap (describedField d.name.text)).flatMap fun p => [Mark.name p.name]).Sublist
        (fs.flatMap Field.marks) := by
    intro fs
    rw [List.flatMap_assoc]
    exact flatMap_sublist_flatMap fun f _ => describedField_sublist _ f
  unfold describedMembers
  cases d.body with
  | object fs => exact hfields fs
  | interface fs =>
    dsimp only
    split
    · exact List.nil_sublist _
    · exact hfields fs
  | input vs =>
    dsimp only
    split
    · exact List.nil_sublist _
    · rw [List.flatMap_map]
      exact flatMap_sublist_flatMap fun v _ => List.sublist_append_left _ _
  | enum vs =>
    dsimp only
    split
    · exact List.nil_sublist _
    · rw [List.flatMap_map]
      exact flatMap_sublist_flatMap fun v _ => List.sublist_append_left _ _
  | union => exact .refl _
  | scalar => exact .refl _

/-- The names that are described stand in the order of the text. -/
theorem describedParts_sublist (d : Definition) :
    ((describedParts d).flatMap fun p => [Mark.name p.name]).Sublist d.marks := by
  rw [describedParts, List.flatMap_cons]
  exact (List.sublist_append_left _ _).append (describedMembers_sublist d)

theorem follows_descriptionsAreCapitalized : descriptionsAreCapitalized.Follows doc := by
  unfold Rule.Follows descriptionsAreCapitalized
  dsimp only
  rw [List.filter_flatMap, List.map_flatMap]
  refine .flatMap fun d _ => Located.sublist (.filter_map fun p _ => ?_) (describedParts_sublist d)
  exact .single List.mem_cons_self rfl

theorem parse_marks (path source : String) : (SchemaDocument.parse path source).marks =
    (read (maskCommentLines source)).definitions.flatMap Definition.marks := by
  unfold SchemaDocument.marks SchemaDocument.parse
  dsimp only

theorem parse_source (path source : String) :
    (SchemaDocument.parse path source).source = source := by
  unfold SchemaDocument.parse
  dsimp only

theorem parse_syntaxErrors (path source : String) :
    (SchemaDocument.parse path source).syntaxErrors =
      syntaxErrors (maskCommentLines source) (read (maskCommentLines source)).faults := by
  unfold SchemaDocument.parse
  dsimp only

theorem syntaxErrors_eq_nil_iff {path source : String} :
    (SchemaDocument.parse path source).syntaxErrors = [] ↔
      (read (maskCommentLines source)).faults = [] := by
  rw [parse_syntaxErrors, syntaxErrors_eq_map, List.map_eq_nil_iff]

theorem compositionErrors_of_readable {text : String} (h : (read text).faults = []) :
    compositionErrors text = errorsOfDefinitions text (read text).definitions := by
  unfold compositionErrors
  dsimp only
  rw [h, List.isEmpty_nil, if_pos rfl]

/-- Composition errors are about directives, in the order of the definitions. -/
theorem located_errorsOfDefinitions (kept : List Nat) (text : String) (ds : List Definition) :
    Located (fun o => keptLine kept ((LineIndex.ofText text).lineOfOffset o))
      (ds.flatMap Definition.marks)
      ((errorsOfDefinitions text ds).map fun e => ⟨keptLine kept e.line, e.message, none⟩) := by
  unfold errorsOfDefinitions
  rw [List.map_map, List.map_flatMap]
  refine .filter_flatMap fun d _ => ?_
  unfold definitionErrors
  simp only [List.map_append, List.map_flatMap, List.map_map]
  let line := fun o => keptLine kept ((LineIndex.ofText text).lineOfOffset o)
  have hdirectives : Located line d.marks
      ((d.directives.filter (·.name == "key")).flatMap (fun x =>
        (keyErrors (declaredFields ds d.name.text) d.name.text x).map fun message =>
          ⟨line x.offset, message, none⟩) ++
        d.body.fields.flatMap fun f => (f.directives.filter fun _ => true).flatMap fun x =>
          (fieldErrors d.name.text f.name.text x).map fun message =>
            ⟨line x.offset, message, none⟩) :=
    located_directives d (by simp) (by simp)
  simp only [List.filter_true] at hdirectives
  exact hdirectives

theorem composition_findings (doc : SchemaDocument) :
    composition.findings doc = (compositionErrors (stripCommentLines doc.source)).map fun e =>
      ⟨keptLine (keptLineNumbers doc.source) e.line, e.message, none⟩ := by
  unfold composition
  dsimp only

/-- The lines of composition errors are those of the directives they are about. -/
theorem follows_composition {path source : String}
    (h : (SchemaDocument.parse path source).syntaxErrors = []) :
    composition.Follows (.parse path source) := by
  have hmask := syntaxErrors_eq_nil_iff.mp h
  obtain ⟨hstrip, hdefinitions⟩ := read_stripCommentLines hmask
  have hlocated := located_errorsOfDefinitions (keptLineNumbers source) (stripCommentLines source)
    (read (stripCommentLines source)).definitions
  rw [← compositionErrors_of_readable hstrip] at hlocated
  have hbound : ∀ m ∈ (read (maskCommentLines source)).definitions.flatMap Definition.marks,
      m.offset < source.utf8ByteSize := by
    intro m hm
    have hlt := offset_lt_of_mem_read_marks hmask hm
    rwa [byteLength_toList, utf8ByteSize_maskCommentLines] at hlt
  have hmarks := (List.forall₂_and_left _ _).mpr ⟨hbound, Likeness.forall₂_marks hdefinitions⟩
  unfold Rule.Follows
  rw [composition_findings, parse_marks, parse_source]
  refine hlocated.transfer ?_
  rw [← List.forall₂_eq_eq_eq, List.forall₂_map_left_iff, List.forall₂_map_right_iff]
  exact hmarks.imp fun m n ⟨hlt, hsame⟩ => hsame hlt

/-! ## Rules that go through a document twice -/

variable (doc) in
/-- The document with definitions and extensions of one kind only. -/
def SchemaDocument.only (kind : TypeKind) : SchemaDocument :=
  { doc with definitions := doc.definitions.filter (·.kind == kind) }

theorem kind_of_mem_only {kind : TypeKind} {d : Definition}
    (h : d ∈ (doc.only kind).definitions) : d.kind = kind :=
  beq_iff_eq.mp (List.mem_filter.mp h).2

theorem withArguments_only_object : withArguments (doc.only .object) = doc.objects := by
  have hobjects : (doc.only .object).objects = doc.objects :=
    List.filter_eq_self.mpr fun d hd => beq_iff_eq.mpr (kind_of_mem_only hd)
  have hinterfaces : (doc.only .object).typesOf .interface = [] := by
    refine List.filter_eq_nil_iff.mpr fun d hd => ?_
    simp [Definition.defines, kind_of_mem_only hd]
  rw [withArguments, hobjects, hinterfaces, List.append_nil]

theorem withArguments_only_interface :
    withArguments (doc.only .interface) = doc.typesOf .interface := by
  have hobjects : (doc.only .interface).objects = [] := by
    refine List.filter_eq_nil_iff.mpr fun d hd => ?_
    simp [kind_of_mem_only hd]
  have hinterfaces : (doc.only .interface).typesOf .interface = doc.typesOf .interface := by
    unfold SchemaDocument.typesOf SchemaDocument.only
    rw [List.filter_filter]
    refine List.filter_congr fun d _ => ?_
    simp [Definition.defines]
  rw [withArguments, hobjects, hinterfaces, List.nil_append]

/-- The rule reports on object types and their extensions first and on interfaces
then, and each time in the order of the document. -/
structure Rule.TwoPass (rule : Rule) : Prop where
  append : ∀ doc, rule.findings doc =
    rule.findings (doc.only .object) ++ rule.findings (doc.only .interface)
  object : ∀ doc : SchemaDocument,
    Located doc.lineOfOffset doc.marks (rule.findings (doc.only .object))
  interface : ∀ doc : SchemaDocument,
    Located doc.lineOfOffset doc.marks (rule.findings (doc.only .interface))

/-- A rule that reports definition by definition. -/
theorem twoPass_of_withArguments {rule : Rule} {f : SchemaDocument → Definition → List Finding}
    (hrule : ∀ doc, rule.findings doc = (withArguments doc).flatMap (f doc))
    (honly : ∀ doc kind, f (doc.only kind) = f doc)
    (hf : ∀ (doc : SchemaDocument) d, Located doc.lineOfOffset d.marks (f doc d)) :
    rule.TwoPass := by
  have hobject : ∀ doc : SchemaDocument,
      rule.findings (doc.only .object) = doc.objects.flatMap (f doc) := by
    intro doc
    rw [hrule, honly, withArguments_only_object]
  have hinterface : ∀ doc : SchemaDocument,
      rule.findings (doc.only .interface) = (doc.typesOf .interface).flatMap (f doc) := by
    intro doc
    rw [hrule, honly, withArguments_only_interface]
  refine ⟨fun doc => ?_, fun doc => ?_, fun doc => ?_⟩
  · rw [hobject, hinterface, hrule, withArguments, List.flatMap_append]
  · rw [hobject]
    exact .filter_flatMap fun d _ => hf doc d
  · rw [hinterface]
    exact .filter_flatMap fun d _ => hf doc d

theorem twoPass_argumentsHaveDescriptions : argumentsHaveDescriptions.TwoPass :=
  twoPass_of_withArguments (fun _ => rfl) (fun _ _ => rfl) fun _ d =>
    located_arguments d fun _ _ => rfl

theorem twoPass_relayConnectionArguments : relayConnectionArguments.TwoPass :=
  twoPass_of_withArguments (fun _ => rfl) (fun _ _ => rfl) fun _ d => located_fields d fun _ => rfl

/-- Rules that look for a type and have no place to point at. -/
def fileRules : List String := [queryRoot.id, relayPageInfo.id]

def twoPassRules : List String := [argumentsHaveDescriptions.id, relayConnectionArguments.id]

/-- Whatever the document, all rules that go through it once but the one on composition,
which reads the text anew. -/
theorem follows_of_ne_composition {rule : Rule} (hrule : rule ∈ catalogue)
    (hfile : rule.id ∉ fileRules) (htwo : rule.id ∉ twoPassRules)
    (hother : rule.id ≠ undefinedType.id) (hcomposition : rule.id ≠ composition.id) :
    rule.Follows doc := by
  simp only [catalogue, List.mem_cons, List.not_mem_nil, or_false] at hrule
  rcases hrule with rfl | rfl | rfl | rfl | rfl | rfl | rfl | rfl | rfl | rfl | rfl | rfl | rfl |
    rfl | rfl | rfl | rfl | rfl | rfl | rfl | rfl | rfl | rfl | rfl
  · exact follows_typesAreCapitalized
  · exact follows_typesHaveDescriptions
  · exact follows_fieldsHaveDescriptions
  · exact follows_fieldsAreCamelCased
  · exact absurd (by decide) htwo
  · exact follows_enumValuesHaveDescriptions
  · exact follows_inputValuesHaveDescriptions
  · exact follows_inputValuesAreCamelCased
  · exact follows_deprecationsHaveAReason
  · exact follows_descriptionsAreCapitalized
  · exact follows_enumValuesSorted
  · exact follows_inputFieldsSorted
  · exact follows_typeFieldsSorted
  · exact follows_interfaceFieldsSorted
  · exact absurd (by decide) hfile
  · exact absurd (by decide) hfile
  · exact follows_relayConnectionTypes
  · exact absurd (by decide) htwo
  · exact follows_definedTypesAreUsed
  · exact absurd rfl hother
  · exact follows_invalidEnumValue
  · exact follows_suspiciousEnumValue
  · exact follows_invalidDirective
  · exact absurd rfl hcomposition

theorem follows_of_mem_catalogue {rule : Rule} (hrule : rule ∈ catalogue)
    (hfile : rule.id ∉ fileRules) (htwo : rule.id ∉ twoPassRules)
    (hother : rule.id ≠ undefinedType.id) {path source : String}
    (h : (SchemaDocument.parse path source).syntaxErrors = []) :
    rule.Follows (.parse path source) := by
  by_cases hcomposition : rule.id = composition.id
  · rw [catalogue_ext hrule (by simp [catalogue]) hcomposition]
    exact follows_composition h
  · exact follows_of_ne_composition hrule hfile htwo hother hcomposition

theorem twoPass_of_mem_twoPassRules {rule : Rule} (hrule : rule ∈ catalogue)
    (h : rule.id ∈ twoPassRules) : rule.TwoPass := by
  simp only [twoPassRules, List.mem_cons, List.not_mem_nil, or_false] at h
  obtain h | h := h
  · rw [catalogue_ext hrule (by simp [catalogue]) h]
    exact twoPass_argumentsHaveDescriptions
  · rw [catalogue_ext hrule (by simp [catalogue]) h]
    exact twoPass_relayConnectionArguments

/-- A rule on the file as a whole has one thing to say at most. -/
theorem pairwise_of_mem_fileRules {rule : Rule} (hrule : rule ∈ catalogue)
    (h : rule.id ∈ fileRules) : (rule.findings doc).Pairwise (·.line ≤ ·.line) := by
  have hone : ∀ (b : Bool) (f : Finding), (if b then [] else [f]).Pairwise (·.line ≤ ·.line) := by
    intro b f
    cases b
    · exact List.pairwise_singleton _ _
    · exact .nil
  simp only [fileRules, List.mem_cons, List.not_mem_nil, or_false] at h
  obtain h | h := h
  · rw [catalogue_ext hrule (by simp [catalogue]) h]
    exact hone _ _
  · rw [catalogue_ext hrule (by simp [catalogue]) h]
    exact hone _ _

/-- The marks of a document without syntax errors stand on lines that never go down. -/
theorem marks_lines_pairwise {path source : String}
    (h : (SchemaDocument.parse path source).syntaxErrors = []) :
    ((SchemaDocument.parse path source).marks.map
      ((SchemaDocument.parse path source).lineOfOffset ·.offset)).Pairwise (· ≤ ·) := by
  rw [parse_marks, List.pairwise_map]
  exact (read_marks_pairwise (syntaxErrors_eq_nil_iff.mp h)).imp fun hle =>
    LineIndex.lineOfOffset_mono _ hle

variable (doc) in
/-- A diagnostic has the line of the finding. -/
theorem pairwise_check_iff (rule : Rule) :
    ((rule.check doc).map (·.line)).Pairwise (· ≤ ·) ↔
      (rule.findings doc).Pairwise (·.line ≤ ·.line) := by
  rw [Rule.check, SchemaDocument.diagnostics_eq_map, List.map_map, List.pairwise_map]
  rfl

variable (doc) in
theorem forall_check_iff (rule : Rule) (p : Nat → Prop) :
    (∀ d ∈ rule.check doc, p d.line) ↔ ∀ f ∈ rule.findings doc, p f.line := by
  rw [Rule.check, SchemaDocument.diagnostics_eq_map, List.forall_mem_map]
  rfl

end Rules

/-- A rule reports on lines of names and directives, also in a document with syntax
errors. -/
theorem mem_lines_of_ne_composition {doc : SchemaDocument} {rule : Rule}
    (hrule : rule ∈ catalogue) (hother : rule.id ≠ undefinedType.id) (hfile : rule.id ∉ fileRules)
    (hcomposition : rule.id ≠ composition.id) {f : Finding} (hf : f ∈ rule.findings doc) :
    f.line ∈ doc.marks.map (doc.lineOfOffset ·.offset) := by
  by_cases htwo : rule.id ∈ twoPassRules
  · have htwice := twoPass_of_mem_twoPassRules hrule htwo
    rw [htwice.append] at hf
    rcases List.mem_append.mp hf with hf | hf
    · exact (htwice.object _).mem f hf
    · exact (htwice.interface _).mem f hf
  · exact (follows_of_ne_composition hrule hfile htwo hother hcomposition).mem f hf

theorem mem_lines_of_mem_catalogue {path source : String} {rule : Rule} (hrule : rule ∈ catalogue)
    (hother : rule.id ≠ undefinedType.id) (hfile : rule.id ∉ fileRules)
    (h : (SchemaDocument.parse path source).syntaxErrors = []) {f : Finding}
    (hf : f ∈ rule.findings (.parse path source)) :
    f.line ∈ (SchemaDocument.parse path source).marks.map
      ((SchemaDocument.parse path source).lineOfOffset ·.offset) := by
  by_cases hcomposition : rule.id = composition.id
  · rw [catalogue_ext hrule (by simp [catalogue]) hcomposition] at hf
    exact (follows_composition h).mem f hf
  · exact mem_lines_of_ne_composition hrule hother hfile hcomposition hf

theorem pairwise_of_not_mem_twoPassRules {path source : String} {rule : Rule}
    (hrule : rule ∈ catalogue) (hother : rule.id ≠ undefinedType.id)
    (htwo : rule.id ∉ twoPassRules) (h : (SchemaDocument.parse path source).syntaxErrors = []) :
    (rule.findings (.parse path source)).Pairwise (·.line ≤ ·.line) := by
  by_cases hfile : rule.id ∈ fileRules
  · exact pairwise_of_mem_fileRules hrule hfile
  · exact (follows_of_mem_catalogue hrule hfile htwo hother h).sorted (marks_lines_pairwise h)

/-- Two passes come out in order if the first one ends before the second starts. -/
theorem pairwise_iff_of_twoPass {path source : String} {rule : Rule} (htwice : rule.TwoPass)
    (h : (SchemaDocument.parse path source).syntaxErrors = []) :
    (rule.findings (.parse path source)).Pairwise (·.line ≤ ·.line) ↔
      ∀ f ∈ rule.findings ((SchemaDocument.parse path source).only .object),
        ∀ g ∈ rule.findings ((SchemaDocument.parse path source).only .interface),
          f.line ≤ g.line := by
  have hlines := marks_lines_pairwise h
  rw [htwice.append, List.pairwise_append]
  refine ⟨fun hs => hs.2.2, fun hcross => ⟨?_, ?_, hcross⟩⟩
  · exact (htwice.object _).sorted hlines
  · exact (htwice.interface _).sorted hlines

/-- In a document without syntax errors a rule reports on lines of names and
directives, and these lines never go down, unless a rule on arguments reports on an
object type further down than on an interface. Rules that look for a type point at
no name, and the rule on undefined types searches the text. -/
theorem check_lines_sorted_iff {path source : String} {rule : Rule} (hrule : rule ∈ catalogue)
    (hother : rule.id ≠ undefinedType.id)
    (h : (SchemaDocument.parse path source).syntaxErrors = []) :
    let doc := SchemaDocument.parse path source
    (rule.id ∉ fileRules →
      ∀ d ∈ rule.check doc, ∃ m ∈ doc.marks, d.line = doc.lineOfOffset m.offset) ∧
    (((rule.check doc).map (·.line)).Pairwise (· ≤ ·) ↔
      (rule.id ∈ twoPassRules →
        ∀ d ∈ rule.check (doc.only .object), ∀ e ∈ rule.check (doc.only .interface),
          d.line ≤ e.line)) := by
  intro doc
  refine ⟨fun hfile => ?_, ?_⟩
  · rw [forall_check_iff doc rule fun n => ∃ m ∈ doc.marks, n = doc.lineOfOffset m.offset]
    intro f hf
    obtain ⟨m, hm, hline⟩ := List.mem_map.mp (mem_lines_of_mem_catalogue hrule hother hfile h hf)
    exact ⟨m, hm, hline.symm⟩
  · rw [pairwise_check_iff]
    by_cases htwo : rule.id ∈ twoPassRules
    · rw [pairwise_iff_of_twoPass (twoPass_of_mem_twoPassRules hrule htwo) h,
        ← forall_check_iff (doc.only .object) rule fun n =>
          ∀ g ∈ rule.findings (doc.only .interface), n ≤ g.line]
      refine ⟨fun hcross _ d hd => ?_, fun hcross d hd => ?_⟩
      · exact (forall_check_iff _ rule (d.line ≤ ·)).mpr (hcross d hd)
      · exact (forall_check_iff _ rule (d.line ≤ ·)).mp (hcross htwo d hd)
    · exact ⟨fun _ hmem => absurd hmem htwo,
        fun _ => pairwise_of_not_mem_twoPassRules hrule hother htwo h⟩

theorem syntaxErrors_eq_nil {path source : String}
    (hlexical : lexicalFaults (lexemes (maskCommentLines source)) = [])
    (hgrammar : (Parser.document (.start (tokens (maskCommentLines source)))).2.faults = []) :
    (SchemaDocument.parse path source).syntaxErrors = [] := by
  rw [syntaxErrors_eq_nil_iff, read_faults_eq_nil_iff]
  exact ⟨hlexical, hgrammar⟩

/-- Two keys without fields, each behind a comment line. -/
def keysBehindComments : String :=
  "// a\ntype A @key \x7b f: Int \x7d\n// b\ntype B @key \x7b f: Int \x7d"

theorem check_lines_sorted_iff_keysBehindComments :
    composition ∈ catalogue ∧ composition.id ≠ undefinedType.id ∧
      (SchemaDocument.parse "schema.graphql" keysBehindComments).syntaxErrors = [] ∧
      ((composition.check (.parse "schema.graphql" keysBehindComments)).map (·.line)).Pairwise
        (· ≤ ·) := by
  have hmem : composition ∈ catalogue := by simp [catalogue]
  have hid : composition.id ≠ undefinedType.id := by decide
  have hreadable : (SchemaDocument.parse "schema.graphql" keysBehindComments).syntaxErrors = [] :=
    syntaxErrors_eq_nil (by decide +kernel) (by decide +kernel)
  refine ⟨hmem, hid, hreadable, (check_lines_sorted_iff hmem hid hreadable).2.mpr fun htwo => ?_⟩
  exact absurd htwo (by decide)

/-- An argument of an interface, and further down one of an object type. -/
def interfaceFirst : String :=
  "interface I \x7b f(a: Int): Int \x7d\ntype Query \x7b g(b: Int): Int \x7d"

/-- The argument of the interface is reported last. -/
theorem argumentsHaveDescriptions_interfaceFirst :
    (SchemaDocument.parse "schema.graphql" interfaceFirst).syntaxErrors = [] ∧
      (argumentsHaveDescriptions.check (.parse "schema.graphql" interfaceFirst)).map (·.line) =
        [2, 1] :=
  ⟨syntaxErrors_eq_nil (by decide +kernel) (by decide +kernel), by decide +kernel⟩

end SchemaLint
