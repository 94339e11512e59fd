import SchemaLint.Proofs.DocumentOrder

/-!
# Rules on alike documents

The rules look at names, types and directives, at whether something is described, and at
whether a description starts with a capital. On two documents whose definitions agree in
these, a rule says the same things in the same order. Where the definitions stand shows
only in the lines of what is said.
-/

namespace SchemaLint

open Sdl Rule Federation Text

variable {L : Likeness} {line : Nat → Nat → Prop} {doc doc' : SchemaDocument}

/-- Findings that say the same on lines that match. -/
structure FindingsAlike (line : Nat → Nat → Prop) (f g : Finding) : Prop where
  text : f.text = g.text
  value : f.value = g.value
  line : line f.line g.line

/-- The definitions of the documents are alike, matching positions are on matching lines,
and of matching strings both start with a capital or neither does. -/
structure DocumentsAlike (L : Likeness) (line : Nat → Nat → Prop) (doc doc' : SchemaDocument) :
    Prop where
  definitions : List.Forall₂ L.Definitions doc.definitions doc'.definitions
  lineOfOffset : ∀ o o', L.offset o o' → line (doc.lineOfOffset o) (doc'.lineOfOffset o')
  isCapitalized : ∀ v w, L.value v w → isCapitalized v = isCapitalized w

/-! ## Lists of matching things -/

section Lists

variable {α β γ : Type} {R : α → β → Prop} {as : List α} {bs : List β}

theorem forall₂_filter (h : List.Forall₂ R as bs) {p : α → Bool} {q : β → Bool}
    (hpq : ∀ a b, R a b → p a = q b) : List.Forall₂ R (as.filter p) (bs.filter q) :=
  List.rel_filter (fun a b hab => iff_of_eq (congrArg (· = true) (hpq a b hab))) h

theorem map_eq_of_forall₂ (h : List.Forall₂ R as bs) {f : α → γ} {g : β → γ}
    (hfg : ∀ a b, R a b → f a = g b) : as.map f = bs.map g :=
  List.forall₂_eq_eq_eq ▸ List.rel_map (fun a b hab => hfg a b hab) h

theorem any_eq_of_forall₂ (h : List.Forall₂ R as bs) {p : α → Bool} {q : β → Bool}
    (hpq : ∀ a b, R a b → p a = q b) : as.any p = bs.any q := by
  induction h with
  | nil => rfl
  | cons hab _ ih => rw [List.any_cons, List.any_cons, hpq _ _ hab, ih]

theorem isNone_eq_of_rel {a : Option α} {b : Option β} (h : Option.Rel R a b) :
    a.isNone = b.isNone := by
  cases h <;> rfl

theorem any_eq_of_rel {a : Option α} {b : Option β} (h : Option.Rel R a b) {p : α → Bool}
    {q : β → Bool} (hpq : ∀ a b, R a b → p a = q b) : a.any p = b.any q := by
  cases h with
  | none => rfl
  | some hab => exact hpq _ _ hab

theorem rel_getElem? (h : List.Forall₂ R as bs) (i : Nat) : Option.Rel R as[i]? bs[i]? := by
  induction h generalizing i with
  | nil => exact .none
  | cons hab _ ih =>
    cases i with
    | zero => exact .some hab
    | succ i => exact ih i

end Lists

/-! ## Parts of definitions -/

section Parts

variable {b c : Body} {d e : Definition}

theorem Sdl.Likeness.Bodies.kind (h : L.Bodies b c) : b.kind = c.kind := by
  cases h <;> rfl

theorem Sdl.Likeness.Bodies.fields (h : L.Bodies b c) :
    List.Forall₂ L.Fields b.fields c.fields := by
  cases h with
  | object h => exact h
  | interface h => exact h
  | input | enum | union | scalar => exact .nil

theorem Sdl.Likeness.Bodies.inputFields (h : L.Bodies b c) :
    List.Forall₂ L.InputValues b.inputFields c.inputFields := by
  cases h with
  | input h => exact h
  | object | interface | enum | union | scalar => exact .nil

theorem Sdl.Likeness.Bodies.enumValues (h : L.Bodies b c) :
    List.Forall₂ L.EnumValues b.enumValues c.enumValues := by
  cases h with
  | enum h => exact h
  | object | interface | input | union | scalar => exact .nil

theorem Sdl.Likeness.Bodies.unionMembers (h : L.Bodies b c) : b.unionMembers = c.unionMembers := by
  cases h <;> rfl

theorem Sdl.Likeness.Definitions.kind (h : L.Definitions d e) : d.kind = e.kind := h.body.kind

theorem Sdl.Likeness.Definitions.usedTypes (h : L.Definitions d e) : usedTypes d = usedTypes e := by
  have hfields : d.body.fields.map (fun f => f.type.base :: f.arguments.map (·.type.base)) =
      e.body.fields.map fun f => f.type.base :: f.arguments.map (·.type.base) :=
    map_eq_of_forall₂ h.body.fields fun f g hf => by
      rw [hf.type, map_eq_of_forall₂ hf.arguments fun v w hv => congrArg TypeRef.base hv.type]
  have hinputs : d.body.inputFields.map (·.type.base) = e.body.inputFields.map (·.type.base) :=
    map_eq_of_forall₂ h.body.inputFields fun v w hv => congrArg TypeRef.base hv.type
  rw [Rule.usedTypes, Rule.usedTypes, List.flatMap_def, List.flatMap_def, hfields, hinputs,
    h.body.unionMembers]

end Parts

/-! ## Parts of documents -/

namespace DocumentsAlike

variable (h : DocumentsAlike L line doc doc')
include h

theorem typesOf (kind : TypeKind) :
    List.Forall₂ L.Definitions (doc.typesOf kind) (doc'.typesOf kind) :=
  forall₂_filter h.definitions fun d e hd => by
    rw [Definition.defines, Definition.defines, hd.isExtension, hd.kind]

theorem objects : List.Forall₂ L.Definitions doc.objects doc'.objects :=
  forall₂_filter h.definitions fun d e hd => by rw [hd.kind]

theorem withArguments : List.Forall₂ L.Definitions (withArguments doc) (withArguments doc') :=
  List.rel_append h.objects (h.typesOf .interface)

theorem definedTypeNames : doc.definedTypeNames = doc'.definedTypeNames :=
  map_eq_of_forall₂ h.definitions fun _ _ hd => hd.name.text

theorem usedTypeNames : usedTypeNames doc = usedTypeNames doc' := by
  rw [Rule.usedTypeNames, Rule.usedTypeNames, List.flatMap_def, List.flatMap_def,
    map_eq_of_forall₂ h.definitions fun _ _ hd => hd.usedTypes]

theorem definesObject (name : String) : definesObject doc name = definesObject doc' name :=
  any_eq_of_forall₂ (h.typesOf .object) fun _ _ hd => by rw [hd.name.text]

/-- Findings with one text at matching names. -/
theorem finding {n n' : Name} (hname : L.Names n n') {text text' : String} (htext : text = text') :
    FindingsAlike line (doc.finding n text) (doc'.finding n' text') :=
  ⟨htext, rfl, h.lineOfOffset _ _ hname.offset⟩

/-- What is said about definitions of some kind. -/
theorem findings {ds ds' : List Definition} (hds : List.Forall₂ L.Definitions ds ds')
    {p p' : Definition → Bool} (hp : ∀ d e, L.Definitions d e → p d = p' e)
    {text : Definition → String} (htext : ∀ d e, L.Definitions d e → text d = text e) :
    List.Forall₂ (FindingsAlike line) ((ds.filter p).map fun d => doc.finding d.name (text d))
      ((ds'.filter p').map fun d => doc'.finding d.name (text d)) :=
  List.rel_map (fun d e hd => h.finding hd.name (htext d e hd)) (forall₂_filter hds hp)

/-- What is said about members of definitions. -/
theorem findings_members {ds ds' : List Definition} (hds : List.Forall₂ L.Definitions ds ds')
    {α : Type} {R : α → α → Prop} {members : Definition → List α}
    (hmembers : ∀ d e, L.Definitions d e → List.Forall₂ R (members d) (members e))
    {name : α → Name} (hname : ∀ a b, R a b → L.Names (name a) (name b))
    {p : α → Bool} (hp : ∀ a b, R a b → p a = p b) {text : Definition → α → String}
    (htext : ∀ d e a b, L.Definitions d e → R a b → text d a = text e b) :
    List.Forall₂ (FindingsAlike line)
      (ds.flatMap fun d => ((members d).filter p).map fun a => doc.finding (name a) (text d a))
      (ds'.flatMap fun d => ((members d).filter p).map fun a => doc'.finding (name a) (text d a)) :=
  List.rel_flatMap hds fun d e hd =>
    List.rel_map (fun a b hab => h.finding (hname a b hab) (htext d e a b hd hab))
      (forall₂_filter (hmembers d e hd) hp)

end DocumentsAlike

/-! ## Rules -/

/-- On alike documents the rule says the same on matching lines. -/
def Rule.Respects (rule : Rule) : Prop :=
  ∀ {L : Likeness} {line : Nat → Nat → Prop} {doc doc' : SchemaDocument},
    DocumentsAlike L line doc doc' →
      List.Forall₂ (FindingsAlike line) (rule.findings doc) (rule.findings doc')

theorem respects_typesAreCapitalized : typesAreCapitalized.Respects := fun h =>
  h.findings (h.typesOf .object) (fun _ _ hd => by rw [hd.name.text])
    fun _ _ hd => by rw [hd.name.text]

theorem respects_typesHaveDescriptions : typesHaveDescriptions.Respects := fun h =>
  h.findings (h.typesOf .object) (fun _ _ hd => isNone_eq_of_rel hd.description)
    fun _ _ hd => by rw [hd.name.text]

theorem respects_fieldsHaveDescriptions : fieldsHaveDescriptions.Respects := fun h =>
  h.findings_members h.objects (fun _ _ hd => hd.body.fields) (fun _ _ hf => hf.name)
    (fun _ _ hf => isNone_eq_of_rel hf.description)
    fun _ _ _ _ hd hf => by rw [hd.name.text, hf.name.text]

theorem respects_fieldsAreCamelCased : fieldsAreCamelCased.Respects := fun h =>
  h.findings_members h.objects (fun _ _ hd => hd.body.fields) (fun _ _ hf => hf.name)
    (fun _ _ hf => by rw [hf.name.text])
    fun _ _ _ _ hd hf => by rw [hd.name.text, hf.name.text]

theorem respects_argumentsHaveDescriptions : argumentsHaveDescriptions.Respects := fun h =>
  List.rel_flatMap h.withArguments fun d e hd =>
    List.rel_flatMap hd.body.fields fun f g hf =>
      List.rel_map
        (fun a b ha => h.finding ha.name (by rw [ha.name.text, hd.name.text, hf.name.text]))
        (forall₂_filter hf.arguments fun a b ha => isNone_eq_of_rel ha.description)

theorem respects_enumValuesHaveDescriptions : enumValuesHaveDescriptions.Respects := fun h =>
  h.findings_members (h.typesOf .enum) (fun _ _ hd => hd.body.enumValues)
    (fun _ _ hv => hv.name) (fun _ _ hv => isNone_eq_of_rel hv.description)
    fun _ _ _ _ hd hv => by rw [hd.name.text, hv.name.text]

theorem respects_inputValuesHaveDescriptions : inputValuesHaveDescriptions.Respects := fun h =>
  h.findings_members (h.typesOf .input) (fun _ _ hd => hd.body.inputFields)
    (fun _ _ hv => hv.name) (fun _ _ hv => isNone_eq_of_rel hv.description)
    fun _ _ _ _ hd hv => by rw [hd.name.text, hv.name.text]

theorem respects_inputValuesAreCamelCased : inputValuesAreCamelCased.Respects := fun h =>
  h.findings_members (h.typesOf .input) (fun _ _ hd => hd.body.inputFields)
    (fun _ _ hv => hv.name) (fun _ _ hv => by rw [hv.name.text])
    fun _ _ _ _ hd hv => by rw [hd.name.text, hv.name.text]

theorem isBareDeprecation_eq {d e : Directive} (h : L.Directives d e) :
    isBareDeprecation d = isBareDeprecation e := by
  have hempty : ∀ {as bs : List Argument}, List.Forall₂ L.Arguments as bs →
      as.isEmpty = bs.isEmpty := by
    intro as bs h
    cases h <;> rfl
  rw [isBareDeprecation, isBareDeprecation, h.name, hempty h.arguments]

theorem respects_deprecationsHaveAReason : deprecationsHaveAReason.Respects := fun h =>
  h.findings_members (h.typesOf .enum) (fun _ _ hd => hd.body.enumValues)
    (fun _ _ hv => hv.name)
    (fun _ _ hv => any_eq_of_forall₂ hv.directives fun _ _ hx => isBareDeprecation_eq hx)
    fun _ _ _ _ hd hv => by rw [hd.name.text, hv.name.text]

theorem respects_relayConnectionTypes : relayConnectionTypes.Respects := fun h =>
  List.rel_flatMap
    (forall₂_filter (h.typesOf .object) fun _ _ hd => by rw [hd.name.text]) fun d e hd => by
      have hany : ∀ r : String, d.body.fields.any (·.name.text == r) =
          e.body.fields.any (·.name.text == r) := fun r =>
        any_eq_of_forall₂ hd.body.fields fun f g hf => by rw [hf.name.text]
      simp only [hany]
      exact List.rel_map (R := Eq) (fun r r' hr => h.finding hd.name (by rw [hd.name.text, hr]))
        (List.forall₂_refl _)

theorem canPage_eq {f g : Field} (h : L.Fields f g) : canPage f = canPage g := by
  have hany : ∀ name : String, f.arguments.any (·.name.text == name) =
      g.arguments.any (·.name.text == name) := fun name =>
    any_eq_of_forall₂ h.arguments fun a b ha => by rw [ha.name.text]
  simp only [canPage, hany]

theorem respects_relayConnectionArguments : relayConnectionArguments.Respects := fun h =>
  h.findings_members h.withArguments (fun _ _ hd => hd.body.fields) (fun _ _ hf => hf.name)
    (fun _ _ hf => by rw [hf.type, canPage_eq hf])
    fun _ _ _ _ hd hf => by rw [hd.name.text, hf.name.text]

theorem respects_definedTypesAreUsed : definedTypesAreUsed.Respects := fun h =>
  h.findings h.definitions
    (fun _ _ hd => by rw [hd.isExtension, hd.name.text, h.usedTypeNames])
    fun _ _ hd => by rw [hd.name.text]

/-! ### Described parts -/

/-- Parts that are described alike. -/
structure DescribedAlike (L : Likeness) (p q : Described) : Prop where
  description : Option.Rel L.value p.description q.description
  name : L.Names p.name q.name
  subject : p.subject = q.subject

theorem forall₂_describedField {f g : Field} (h : L.Fields f g) (owner : String) :
    List.Forall₂ (DescribedAlike L) (describedField owner f) (describedField owner g) := by
  refine .cons ⟨h.description, h.name, by rw [h.name.text]⟩ ?_
  exact List.rel_map (fun a b ha =>
    ⟨ha.description, ha.name, by rw [ha.name.text, h.name.text]⟩) h.arguments

theorem forall₂_describedMembers {d e : Definition} (h : L.Definitions d e) :
    List.Forall₂ (DescribedAlike L) (describedMembers d) (describedMembers e) := by
  have hbody := h.body
  rw [describedMembers, describedMembers, h.isExtension, h.name.text]
  generalize d.body = b at hbody
  generalize e.body = c at hbody
  cases hbody with
  | object hfields =>
    exact List.rel_flatMap hfields fun f g hf => forall₂_describedField hf _
  | interface hfields =>
    dsimp only
    split
    · exact .nil
    · exact List.rel_flatMap hfields fun f g hf => forall₂_describedField hf _
  | input hfields =>
    dsimp only
    split
    · exact .nil
    · exact List.rel_map (fun v w hv => ⟨hv.description, hv.name, by rw [hv.name.text]⟩) hfields
  | enum hvalues =>
    dsimp only
    split
    · exact .nil
    · exact List.rel_map (fun v w hv => ⟨hv.description, hv.name, by rw [hv.name.text]⟩) hvalues
  | union => exact .nil
  | scalar => exact .nil

theorem respects_descriptionsAreCapitalized : descriptionsAreCapitalized.Respects := by
  intro L line doc doc' h
  have hparts : List.Forall₂ (DescribedAlike L) (doc.definitions.flatMap describedParts)
      (doc'.definitions.flatMap describedParts) :=
    List.rel_flatMap h.definitions fun d e hd =>
      .cons ⟨hd.description, hd.name, by rw [hd.name.text]⟩ (forall₂_describedMembers hd)
  refine List.rel_map (fun p q hp => h.finding hp.name (by rw [hp.subject]))
    (forall₂_filter hparts fun p q hp => ?_)
  exact any_eq_of_rel hp.description fun v w hvalue => by rw [h.isCapitalized v w hvalue]

/-! ### Order of members -/

theorem rel_unsorted? (h : DocumentsAlike L line doc doc') {subject subject' : String}
    (hsubject : subject = subject') {ns ns' : List Name} (hns : List.Forall₂ L.Names ns ns') :
    Option.Rel (FindingsAlike line) (unsorted? doc subject ns) (unsorted? doc' subject' ns') := by
  have hnames : ns.map (·.text) = ns'.map (·.text) := map_eq_of_forall₂ hns fun _ _ hn => hn.text
  rw [unsorted?, unsorted?, hnames, hsubject]
  cases firstUnsorted? (ns'.map (·.text)) with
  | none => exact .none
  | some index =>
    have hmember := rel_getElem? hns index
    rw [Option.bind_some, Option.bind_some]
    generalize ns[index]? = n at hmember
    generalize ns'[index]? = n' at hmember
    cases hmember with
    | none => exact .none
    | some hn => exact .some (h.finding hn rfl)

theorem forall₂_unsortedTypes (h : DocumentsAlike L line doc doc') (kind : TypeKind)
    (subject : String) {members : Definition → List Name}
    (hmembers : ∀ d e, L.Definitions d e → List.Forall₂ L.Names (members d) (members e)) :
    List.Forall₂ (FindingsAlike line) (unsortedTypes doc kind subject members)
      (unsortedTypes doc' kind subject members) :=
  List.rel_filterMap (fun d e hd => rel_unsorted? h (by rw [hd.name.text]) (hmembers d e hd))
    (h.typesOf kind)

theorem forall₂_fieldNames {d e : Definition} (h : L.Definitions d e) :
    List.Forall₂ L.Names (d.body.fields.map (·.name)) (e.body.fields.map (·.name)) :=
  List.rel_map (fun _ _ hf => hf.name) h.body.fields

theorem respects_enumValuesSorted : enumValuesSorted.Respects := fun h =>
  List.rel_map (fun _ _ hf => ⟨hf.text, congrArg some hf.text, hf.line⟩)
    (forall₂_unsortedTypes h .enum _ fun _ _ hd =>
      List.rel_map (fun _ _ hv => hv.name) hd.body.enumValues)

theorem respects_inputFieldsSorted : inputFieldsSorted.Respects := fun h =>
  forall₂_unsortedTypes h .input _ fun _ _ hd =>
    List.rel_map (fun _ _ hv => hv.name) hd.body.inputFields

theorem respects_typeFieldsSorted : typeFieldsSorted.Respects := fun h =>
  forall₂_unsortedTypes h .object _ fun _ _ hd => forall₂_fieldNames hd

theorem respects_interfaceFieldsSorted : interfaceFieldsSorted.Respects := fun h =>
  forall₂_unsortedTypes h .interface _ fun _ _ hd => forall₂_fieldNames hd

/-! ### Enum values -/

/-- Enum values that belong to types of one name. -/
structure OwnedAlike (L : Likeness) (p q : String × EnumValue) : Prop where
  owner : p.1 = q.1
  value : L.EnumValues p.2 q.2

theorem forall₂_ownedEnumValues (h : DocumentsAlike L line doc doc') :
    List.Forall₂ (OwnedAlike L) (ownedEnumValues doc) (ownedEnumValues doc') :=
  List.rel_flatMap h.definitions fun _ _ hd =>
    List.rel_map (fun _ _ hv => ⟨hd.name.text, hv⟩) hd.body.enumValues

theorem respects_invalidEnumValue : invalidEnumValue.Respects := fun h =>
  List.rel_map (fun p q hp => h.finding hp.value.name (by rw [hp.owner, hp.value.name.text]))
    (forall₂_filter (forall₂_ownedEnumValues h) fun p q hp => by
      dsimp only
      rw [hp.value.name.text])

theorem respects_suspiciousEnumValue : suspiciousEnumValue.Respects := by
  intro L line doc doc' h
  refine List.rel_map (fun p q hp => ?_)
    (forall₂_filter (forall₂_ownedEnumValues h) fun p q hp => by
      dsimp only
      rw [hp.value.name.text])
  have htext : digitText p.1 p.2.name.text = digitText q.1 q.2.name.text := by
    rw [hp.owner, hp.value.name.text]
  exact ⟨htext, congrArg some hp.value.name.text, h.lineOfOffset _ _ hp.value.name.offset⟩

/-! ### Directives -/

theorem respects_invalidDirective : invalidDirective.Respects := by
  intro L line doc doc' h
  have hunknown : ∀ {xs ys : List Directive}, List.Forall₂ L.Directives xs ys →
      List.Forall₂ L.Directives (xs.filter isUnknown) (ys.filter isUnknown) := fun hxs =>
    forall₂_filter hxs fun x y hx => by rw [isUnknown, isUnknown, hx.name]
  refine List.rel_flatMap h.objects fun d e hd => List.rel_append ?_ ?_
  · refine List.rel_map (fun x y hx => ?_) (hunknown hd.directives)
    exact ⟨by rw [hd.name.text, hx.name], rfl, h.lineOfOffset _ _ hx.offset⟩
  · refine List.rel_flatMap hd.body.fields fun f g hf => ?_
    refine List.rel_map (fun x y hx => ?_) (hunknown hf.directives)
    exact ⟨by rw [hd.name.text, hf.name.text, hx.name], rfl, h.lineOfOffset _ _ hx.offset⟩

/-! ### Rules with lines of their own -/

/-- References alike, wherever they stand. -/
structure ReferencesAlike (r s : Reference) : Prop where
  subject : r.subject = s.subject
  type : r.type = s.type

theorem forall₂_references {d e : Definition} (h : L.Definitions d e) :
    List.Forall₂ ReferencesAlike (references d) (references e) := by
  refine List.rel_append (List.rel_flatMap h.body.fields fun f g hf => ?_) ?_
  · refine .cons ⟨by rw [h.name.text, hf.name.text], hf.type⟩ ?_
    refine List.rel_map (fun a b ha => ⟨?_, ha.type⟩) hf.arguments
    rw [h.name.text, hf.name.text, ha.name.text]
  · exact List.rel_map (fun v w hv => ⟨by rw [h.name.text, hv.name.text], hv.type⟩)
      h.body.inputFields

/-- Undefined types are looked for in the text, so their lines have nothing to do with
the definitions. -/
theorem forall₂_undefinedType (h : DocumentsAlike L line doc doc') :
    List.Forall₂ (FindingsAlike fun _ _ => True) (undefinedType.findings doc)
      (undefinedType.findings doc') := by
  have hreferences : List.Forall₂ ReferencesAlike (doc.definitions.flatMap references)
      (doc'.definitions.flatMap references) :=
    List.rel_flatMap h.definitions fun _ _ hd => forall₂_references hd
  refine List.rel_map (fun r s hr => ⟨by rw [hr.subject, hr.type], rfl, trivial⟩)
    (forall₂_filter hreferences fun r s hr => ?_)
  rw [hr.type, h.definedTypeNames]

/-- A rule that looks for a type says the same on the first line or says nothing. -/
theorem findings_eq_of_mem_fileRules (h : DocumentsAlike L line doc doc') {rule : Rule}
    (hrule : rule ∈ catalogue) (hfile : rule.id ∈ fileRules) :
    rule.findings doc = rule.findings doc' := by
  simp only [fileRules, List.mem_cons, List.not_mem_nil, or_false] at hfile
  obtain hid | hid := hfile
  · rw [catalogue_ext hrule (by simp [catalogue]) hid]
    simp only [queryRoot, h.definesObject]
  · rw [catalogue_ext hrule (by simp [catalogue]) hid]
    simp only [relayPageInfo, h.definesObject]

/-- All rules that look at nothing but the definitions. -/
theorem respects_of_mem_catalogue {rule : Rule} (hrule : rule ∈ catalogue)
    (hfile : rule.id ∉ fileRules) (hother : rule.id ≠ undefinedType.id)
    (hcomposition : rule.id ≠ composition.id) : rule.Respects := by
  simp only [catalogue, List.mem_cons, List.not_mem_nil, or_false] at hrule
  rcases hrule with rfl | rfl | rfl | rfl | rfl | rfl | rfl | rfl | rfl | rfl | rfl | rfl | rfl |
    rfl | rfl | rfl | rfl | rfl | rfl | rfl | rfl | rfl | rfl | rfl
  · exact respects_typesAreCapitalized
  · exact respects_typesHaveDescriptions
  · exact respects_fieldsHaveDescriptions
  · exact respects_fieldsAreCamelCased
  · exact respects_argumentsHaveDescriptions
  · exact respects_enumValuesHaveDescriptions
  · exact respects_inputValuesHaveDescriptions
  · exact respects_inputValuesAreCamelCased
  · exact respects_deprecationsHaveAReason
  · exact respects_descriptionsAreCapitalized
  · exact respects_enumValuesSorted
  · exact respects_inputFieldsSorted
  · exact respects_typeFieldsSorted
  · exact respects_interfaceFieldsSorted
  · exact absurd (by decide) hfile
  · exact absurd (by decide) hfile
  · exact respects_relayConnectionTypes
  · exact respects_relayConnectionArguments
  · exact respects_definedTypesAreUsed
  · exact absurd rfl hother
  · exact respects_invalidEnumValue
  · exact respects_suspiciousEnumValue
  · exact respects_invalidDirective
  · exact absurd rfl hcomposition

end SchemaLint
