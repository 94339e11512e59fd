import SchemaLint.Lint
import SchemaLint.Proofs.DocumentOrder

/-!
# Schemas without a diagnostic

`Clean` says what a schema is like on which no rule has anything to say, in terms of
its definitions and their members only. Linting under the default configuration
reports nothing exactly for the texts that read as a clean schema. One lemma for each
rule says when it stays silent, and the theorem at the end puts them together.
-/

namespace SchemaLint

open Sdl Source Text Rule Federation

/-! ## Clean schemas -/

/-- No underscore, and a first character from `a` to `z`. -/
def CamelCase (name : String) : Prop :=
  '_' ∉ name.toList ∧ ∃ c ∈ name.toList.head?, 'a' ≤ c ∧ c ≤ 'z'

def StartsUpper (name : String) : Prop := ∃ c ∈ name.toList.head?, isUppercase c = true

/-- The first character that is not blank is a capital, if there is one. -/
def Capitalized (description : String) : Prop :=
  ∀ c ∈ description.toList.find? (!isBlank ·), isUppercase c = true

def NotBlank (text : String) : Prop := ∃ c ∈ text.toList, isBlank c = false

def ConnectionName (name : String) : Prop := "Connection".toList <:+ name.toList

namespace Sdl.Definition

variable (d : Definition)

/-- Defines a type of that kind, and does not only extend one. -/
def Defines (kind : TypeKind) : Prop := d.isExtension = false ∧ d.kind = kind

/-- An object type, an extension of one, or an interface type: the rules look into the
fields of these. -/
def Fielded : Prop := d.kind = .object ∨ d.Defines .interface

/-- A description of the definition or of a member of it. -/
inductive Carries : String → Prop
  | own {text : String} : d.isExtension = false → d.description = some text → Carries text
  | field {f : Field} {text : String} : d.Fielded → f ∈ d.body.fields →
      f.description = some text → Carries text
  | argument {f : Field} {a : InputValue} {text : String} : d.Fielded → f ∈ d.body.fields →
      a ∈ f.arguments → a.description = some text → Carries text
  | inputField {v : InputValue} {text : String} : d.Defines .input → v ∈ d.body.inputFields →
      v.description = some text → Carries text
  | enumValue {v : EnumValue} {text : String} : d.Defines .enum → v ∈ d.body.enumValues →
      v.description = some text → Carries text

/-- A field, argument or input field has the type of that name. -/
inductive RefersTo : String → Prop
  | field {f : Field} : f ∈ d.body.fields → RefersTo f.type.base
  | argument {f : Field} {a : InputValue} : f ∈ d.body.fields → a ∈ f.arguments →
      RefersTo a.type.base
  | inputField {v : InputValue} : v ∈ d.body.inputFields → RefersTo v.type.base

/-- Names of the members that have an order. -/
def memberNames : List String :=
  match d.body with
  | .object fs => fs.map (·.name.text)
  | .interface fs => fs.map (·.name.text)
  | .input vs => vs.map (·.name.text)
  | .enum vs => vs.map (·.name.text)
  | .union _ => []
  | .scalar => []

def DeclaresField (name : String) : Prop := ∃ f ∈ d.body.fields, f.name.text = name

end Sdl.Definition

def Sdl.Field.Takes (f : Field) (name : String) : Prop := ∃ a ∈ f.arguments, a.name.text = name

/-- The directive has a string of fields, which names these at its top. -/
def Sdl.Directive.Selects (x : Directive) (fields : List String) : Prop :=
  ∃ text, x.stringArgument? "fields" = some text ∧ NotBlank text ∧
    readFieldSet text = .ok fields ∧ fields ≠ []

/-- The definitions compose with those of other subgraphs. -/
structure Composes (ds : List Definition) : Prop where
  keys : ∀ d ∈ ds, d.kind = .object ∨ d.kind = .interface →
    ∀ x ∈ d.directives, x.name = "key" → ∃ fields, x.Selects fields ∧
      ∀ name ∈ fields, ∃ e ∈ ds, e.name.text = d.name.text ∧ e.DeclaresField name
  fieldSets : ∀ d ∈ ds, ∀ f ∈ d.body.fields, ∀ x ∈ f.directives,
    x.name = "requires" ∨ x.name = "provides" → ∃ fields, x.Selects fields
  overrides : ∀ d ∈ ds, ∀ f ∈ d.body.fields, ∀ x ∈ f.directives, x.name = "override" →
    ∃ text, x.stringArgument? "from" = some text ∧ NotBlank text

/-- What the rules together ask of a schema. -/
structure SchemaDocument.Clean (doc : SchemaDocument) : Prop where
  readable : doc.syntaxErrors = []
  root : ∃ d ∈ doc.definitions, d.Defines .object ∧ d.name.text = "Query"
  pageInfo : ∃ d ∈ doc.definitions, d.Defines .object ∧ d.name.text = "PageInfo"
  types : ∀ d ∈ doc.definitions, d.Defines .object → d.description.isSome ∧
    (d.name.text ∈ rootOperationTypes ∨ StartsUpper d.name.text)
  fields : ∀ d ∈ doc.definitions, d.kind = .object → ∀ f ∈ d.body.fields,
    f.description.isSome ∧ CamelCase f.name.text
  arguments : ∀ d ∈ doc.definitions, d.Fielded → ∀ f ∈ d.body.fields, ∀ a ∈ f.arguments,
    a.description.isSome
  enumValues : ∀ d ∈ doc.definitions, d.Defines .enum → ∀ v ∈ d.body.enumValues,
    v.description.isSome ∧ ∀ x ∈ v.directives, x.name = "deprecated" → x.arguments ≠ []
  digits : ∀ d ∈ doc.definitions, ∀ v ∈ d.body.enumValues, ∀ c ∈ v.name.text.toList,
    ¬ ('0' ≤ c ∧ c ≤ '9')
  inputFields : ∀ d ∈ doc.definitions, d.Defines .input → ∀ v ∈ d.body.inputFields,
    v.description.isSome ∧ CamelCase v.name.text
  descriptions : ∀ d ∈ doc.definitions, ∀ text, d.Carries text → Capitalized text
  ordered : ∀ d ∈ doc.definitions, d.isExtension = false → d.memberNames.Pairwise (· ≤ ·)
  connections : ∀ d ∈ doc.definitions, d.Defines .object → ConnectionName d.name.text →
    d.DeclaresField "pageInfo" ∧ d.DeclaresField "edges"
  paging : ∀ d ∈ doc.definitions, d.Fielded → ∀ f ∈ d.body.fields, ConnectionName f.type.base →
    f.Takes "first" ∧ f.Takes "after" ∨ f.Takes "last" ∧ f.Takes "before"
  used : ∀ d ∈ doc.definitions, d.isExtension = false → d.name.text ∉ rootOperationTypes →
    ∃ e ∈ doc.definitions, e.RefersTo d.name.text ∨ d.name.text ∈ e.body.unionMembers
  defined : ∀ d ∈ doc.definitions, ∀ name, d.RefersTo name →
    name ∈ builtInScalars ∨ ∃ e ∈ doc.definitions, e.name.text = name
  directives : ∀ d ∈ doc.definitions, d.kind = .object →
    (∀ x ∈ d.directives, x.name ∈ allowedDirectives) ∧
      ∀ f ∈ d.body.fields, ∀ x ∈ f.directives, x.name ∈ allowedDirectives
  composes : Composes (read (stripCommentLines doc.source)).definitions

/-! ## Tests on names and texts -/

theorem isCamelCase_iff (name : String) : isCamelCase name = true ↔ CamelCase name := by
  unfold isCamelCase CamelCase
  cases name.toList with
  | nil => simp
  | cons c cs => simp [and_assoc]

theorem startsLow_eq_false_iff {name : String} (h : isName name = true) :
    startsLow name = false ↔ StartsUpper name := by
  unfold isName at h
  unfold startsLow StartsUpper
  cases hcs : name.toList with
  | nil => simp [hcs] at h
  | cons c cs => simp

/-- White space at the end does not matter for the first character. -/
theorem head?_trimEnd {c : Char} (cs : List Char) (hc : isBlank c = false) :
    (trimEnd (c :: cs)).head? = some c := by
  have hlast : [c].dropWhile isBlank = [c] := by simp [hc]
  rw [trimEnd, List.reverse_cons, List.dropWhile_append, hlast, List.head?_reverse]
  split
  · rfl
  · rw [List.getLast?_append, List.getLast?_singleton, Option.some_or]

theorem head?_trim (cs : List Char) : (trim cs).head? = cs.find? (!isBlank ·) := by
  induction cs with
  | nil => rfl
  | cons c cs ih =>
    rw [trim, trimStart] at ih ⊢
    by_cases hc : isBlank c = true
    · rw [List.dropWhile_cons_of_pos hc, ih, List.find?_cons_of_neg (by simp [hc])]
    · rw [List.dropWhile_cons_of_neg hc, List.find?_cons_of_pos (by simp [hc])]
      exact head?_trimEnd cs (Bool.not_eq_true _ ▸ hc)

theorem isCapitalized_iff (description : String) :
    isCapitalized description = true ↔ Capitalized description := by
  unfold isCapitalized Capitalized
  rw [← head?_trim]
  cases trim description.toList with
  | nil => simp
  | cons c cs => simp

theorem allBlank_eq_false_iff (text : String) :
    allBlank text.toList = false ↔ NotBlank text := by
  simp [allBlank, NotBlank]

theorem isConnection_iff (name : String) : isConnection name = true ↔ ConnectionName name :=
  List.isSuffixOf_iff_suffix

theorem isSuspiciousEnumValue_eq_false_iff (value : String) :
    isSuspiciousEnumValue value = false ↔ ∀ c ∈ value.toList, ¬ ('0' ≤ c ∧ c ≤ '9') := by
  simp [isSuspiciousEnumValue, isDigit]

/-! ### Names of the language as identifiers -/

theorem toNat_lt_of_isNameContinue {c : Char} (h : isNameContinue c = true) : c.toNat < 128 := by
  have hbound : ∀ d : Char, c ≤ d → d.toNat < 128 → c.toNat < 128 :=
    fun d hle hd => Nat.lt_of_le_of_lt hle hd
  simp only [isNameContinue, isNameStart, isDigit, Bool.or_eq_true, Bool.and_eq_true,
    decide_eq_true_eq, beq_iff_eq] at h
  rcases h with ((h | h) | rfl) | h
  · exact hbound _ h.2 (by decide)
  · exact hbound _ h.2 (by decide)
  · decide
  · exact hbound _ h.2 (by decide)

/-- The characters of a name are letters, digits and underscores of any script. -/
theorem isAlphabetic_of_isNameStart {c : Char} (h : isNameStart c = true) :
    (isAlphabetic c || c == '_') = true := by
  have htable : ∀ n < 128, isNameStart (Char.ofNat n) = true →
      (isAlphabetic (Char.ofNat n) || Char.ofNat n == '_') = true := by
    decide +kernel
  have hlt : c.toNat < 128 := toNat_lt_of_isNameContinue (by simp [isNameContinue, h])
  have hc := htable c.toNat hlt
  rw [Char.ofNat_toNat] at hc
  exact hc h

theorem isAlphanumeric_of_isNameContinue {c : Char} (h : isNameContinue c = true) :
    (isAlphanumeric c || c == '_') = true := by
  have htable : ∀ n < 128, isNameContinue (Char.ofNat n) = true →
      (isAlphanumeric (Char.ofNat n) || Char.ofNat n == '_') = true := by
    decide +kernel
  have hc := htable c.toNat (toNat_lt_of_isNameContinue h)
  rw [Char.ofNat_toNat] at hc
  exact hc h

/-- A name that was read is never an invalid enum value. -/
theorem isValidEnumValue_of_isName {value : String} (h : isName value = true) :
    isValidEnumValue value = true := by
  unfold isName at h
  unfold isValidEnumValue
  split
  · next hcs => simp [hcs] at h
  · next c cs hcs =>
    simp only [hcs, Bool.and_eq_true, List.all_eq_true] at h
    simp only [Bool.and_eq_true, List.all_eq_true]
    exact ⟨isAlphabetic_of_isNameStart h.1, fun c hc => isAlphanumeric_of_isNameContinue (h.2 c hc)⟩

/-! ### Order -/

/-- Names are in order if sorting leaves each in its place. -/
theorem firstUnsorted?_eq_none_iff (names : List String) :
    firstUnsorted? names = none ↔ names.Pairwise (· ≤ ·) := by
  have hsame : firstUnsorted? names = none ↔ names = sorted names := by
    have hlength : names.length = (sorted names).length := (List.length_mergeSort _).symm
    rw [firstUnsorted?, List.findIdx?_eq_none_iff, ← List.forall₂_eq_eq_eq, List.forall₂_iff_zip]
    simp [hlength]
  rw [hsame]
  constructor
  · intro h
    rw [h]
    exact pairwise_sorted names
  · intro h
    exact (List.mergeSort_of_pairwise (h.imp fun hab => decide_eq_true hab)).symm

theorem unsorted?_eq_none_iff (doc : SchemaDocument) (subject : String) (members : List Name) :
    unsorted? doc subject members = none ↔ (members.map (·.text)).Pairwise (· ≤ ·) := by
  rw [← firstUnsorted?_eq_none_iff]
  unfold unsorted?
  dsimp only
  cases hindex : firstUnsorted? (members.map (·.text)) with
  | none => simp
  | some index =>
    obtain ⟨hlt, -⟩ := List.findIdx?_eq_some_iff_getElem.mp hindex
    have hmember : index < members.length := by
      rw [List.length_zip, List.length_map] at hlt
      omega
    simp [hmember]

/-! ## When a rule stays silent -/

section Silence

variable {doc : SchemaDocument}

theorem defines_iff {d : Definition} {kind : TypeKind} :
    d.defines kind = true ↔ d.Defines kind := by
  simp [Definition.defines, Definition.Defines]

theorem mem_typesOf {d : Definition} {kind : TypeKind} :
    d ∈ doc.typesOf kind ↔ d ∈ doc.definitions ∧ d.Defines kind := by
  rw [SchemaDocument.typesOf, List.mem_filter, defines_iff]

theorem mem_objects {d : Definition} :
    d ∈ doc.objects ↔ d ∈ doc.definitions ∧ d.kind = .object := by
  rw [SchemaDocument.objects, List.mem_filter, beq_iff_eq]

theorem mem_withArguments {d : Definition} :
    d ∈ withArguments doc ↔ d ∈ doc.definitions ∧ d.Fielded := by
  rw [withArguments, List.mem_append, mem_objects, mem_typesOf, ← and_or_left,
    Definition.Fielded]

/-- Findings about members that fail a test. -/
theorem flatMap_map_filter_eq_nil_iff {α : Type} {ds : List Definition}
    {members : Definition → List α} {p : α → Bool} {f : Definition → α → Finding} :
    (ds.flatMap fun d => ((members d).filter p).map (f d)) = [] ↔
      ∀ d ∈ ds, ∀ x ∈ members d, p x = false := by
  simp [List.flatMap_eq_nil_iff]

theorem typesHaveDescriptions_silent_iff : typesHaveDescriptions.findings doc = [] ↔
    ∀ d ∈ doc.definitions, d.Defines .object → d.description.isSome := by
  simp [typesHaveDescriptions, mem_typesOf, Option.isSome_iff_ne_none]

theorem typesAreCapitalized_silent_iff
    (hnames : ∀ d ∈ doc.definitions, isName d.name.text = true) :
    typesAreCapitalized.findings doc = [] ↔ ∀ d ∈ doc.definitions, d.Defines .object →
      d.name.text ∈ rootOperationTypes ∨ StartsUpper d.name.text := by
  unfold typesAreCapitalized
  simp only [List.map_eq_nil_iff, List.filter_eq_nil_iff, mem_typesOf, and_imp]
  refine forall₂_congr fun d hd => imp_congr_right fun _ => ?_
  rw [← startsLow_eq_false_iff (hnames d hd)]
  by_cases hroot : d.name.text ∈ rootOperationTypes <;> simp [hroot]

theorem fieldsHaveDescriptions_silent_iff : fieldsHaveDescriptions.findings doc = [] ↔
    ∀ d ∈ doc.definitions, d.kind = .object → ∀ f ∈ d.body.fields, f.description.isSome := by
  unfold fieldsHaveDescriptions
  dsimp only
  rw [flatMap_map_filter_eq_nil_iff]
  simp only [mem_objects, and_imp, Option.isNone_eq_false_iff]

theorem fieldsAreCamelCased_silent_iff : fieldsAreCamelCased.findings doc = [] ↔
    ∀ d ∈ doc.definitions, d.kind = .object → ∀ f ∈ d.body.fields, CamelCase f.name.text := by
  unfold fieldsAreCamelCased
  dsimp only
  rw [flatMap_map_filter_eq_nil_iff]
  simp only [mem_objects, and_imp, Bool.not_eq_false', isCamelCase_iff]

theorem argumentsHaveDescriptions_silent_iff : argumentsHaveDescriptions.findings doc = [] ↔
    ∀ d ∈ doc.definitions, d.Fielded → ∀ f ∈ d.body.fields, ∀ a ∈ f.arguments,
      a.description.isSome := by
  unfold argumentsHaveDescriptions
  simp only [List.flatMap_eq_nil_iff, List.map_eq_nil_iff, List.filter_eq_nil_iff,
    mem_withArguments, and_imp, Bool.not_eq_true, Option.isNone_eq_false_iff]

theorem enumValuesHaveDescriptions_silent_iff : enumValuesHaveDescriptions.findings doc = [] ↔
    ∀ d ∈ doc.definitions, d.Defines .enum → ∀ v ∈ d.body.enumValues, v.description.isSome := by
  unfold enumValuesHaveDescriptions
  dsimp only
  rw [flatMap_map_filter_eq_nil_iff]
  simp only [mem_typesOf, and_imp, Option.isNone_eq_false_iff]

theorem inputValuesHaveDescriptions_silent_iff : inputValuesHaveDescriptions.findings doc = [] ↔
    ∀ d ∈ doc.definitions, d.Defines .input → ∀ v ∈ d.body.inputFields,
      v.description.isSome := by
  unfold inputValuesHaveDescriptions
  dsimp only
  rw [flatMap_map_filter_eq_nil_iff]
  simp only [mem_typesOf, and_imp, Option.isNone_eq_false_iff]

theorem inputValuesAreCamelCased_silent_iff : inputValuesAreCamelCased.findings doc = [] ↔
    ∀ d ∈ doc.definitions, d.Defines .input → ∀ v ∈ d.body.inputFields,
      CamelCase v.name.text := by
  unfold inputValuesAreCamelCased
  dsimp only
  rw [flatMap_map_filter_eq_nil_iff]
  simp only [mem_typesOf, and_imp, Bool.not_eq_false', isCamelCase_iff]

theorem deprecationsHaveAReason_silent_iff : deprecationsHaveAReason.findings doc = [] ↔
    ∀ d ∈ doc.definitions, d.Defines .enum → ∀ v ∈ d.body.enumValues, ∀ x ∈ v.directives,
      x.name = "deprecated" → x.arguments ≠ [] := by
  unfold deprecationsHaveAReason
  dsimp only
  rw [flatMap_map_filter_eq_nil_iff]
  simp [mem_typesOf, isBareDeprecation]

theorem suspiciousEnumValue_silent_iff : suspiciousEnumValue.findings doc = [] ↔
    ∀ d ∈ doc.definitions, ∀ v ∈ d.body.enumValues, ∀ c ∈ v.name.text.toList,
      ¬ ('0' ≤ c ∧ c ≤ '9') := by
  unfold suspiciousEnumValue ownedEnumValues
  simp only [List.map_eq_nil_iff, List.filter_eq_nil_iff, List.forall_mem_flatMap,
    List.forall_mem_map, Bool.not_eq_true, isSuspiciousEnumValue_eq_false_iff]

theorem invalidEnumValue_silent
    (hnames : ∀ d ∈ doc.definitions, ∀ v ∈ d.body.enumValues, isName v.name.text = true) :
    invalidEnumValue.findings doc = [] := by
  unfold invalidEnumValue ownedEnumValues
  simp only [List.map_eq_nil_iff, List.filter_eq_nil_iff, List.forall_mem_flatMap,
    List.forall_mem_map]
  intro d hd v hv
  simp [isValidEnumValue_of_isName (hnames d hd v hv)]

/-! ### Descriptions -/

theorem isLowercase_eq_false_iff (p : Described) :
    p.isLowercase = false ↔ ∀ text, p.description = some text → Capitalized text := by
  unfold Described.isLowercase
  cases p.description with
  | none => simp
  | some text => simp [isCapitalized_iff]

theorem exists_describedField_iff (owner : String) {text : String} {f : Field} :
    (∃ p ∈ describedField owner f, p.description = some text) ↔
      f.description = some text ∨ ∃ a ∈ f.arguments, a.description = some text := by
  rw [describedField, List.exists_mem_cons_iff]
  simp only [List.mem_map, exists_exists_and_eq_and]

theorem exists_describedFields_iff {owner text : String} {fs : List Field} :
    (∃ p ∈ fs.flatMap (describedField owner), p.description = some text) ↔
      ∃ f ∈ fs, f.description = some text ∨ ∃ a ∈ f.arguments, a.description = some text := by
  simp only [← exists_describedField_iff owner, List.mem_flatMap]
  constructor
  · rintro ⟨p, ⟨f, hf, hp⟩, ht⟩
    exact ⟨f, hf, p, hp, ht⟩
  · rintro ⟨f, hf, p, hp, ht⟩
    exact ⟨p, ⟨f, hf, hp⟩, ht⟩

/-- The members whose descriptions are looked at. -/
theorem exists_describedMembers_iff {d : Definition} {text : String} :
    (∃ p ∈ describedMembers d, p.description = some text) ↔
      (d.Fielded ∧ ∃ f ∈ d.body.fields, f.description = some text ∨
        ∃ a ∈ f.arguments, a.description = some text) ∨
      (d.Defines .input ∧ ∃ v ∈ d.body.inputFields, v.description = some text) ∨
      (d.Defines .enum ∧ ∃ v ∈ d.body.enumValues, v.description = some text) := by
  obtain ⟨isExtension, _, name, _, body, _⟩ := d
  cases body <;> cases isExtension <;>
    simp [-List.mem_flatMap, describedMembers, exists_describedFields_iff, Definition.Fielded,
      Definition.Defines, Definition.kind, Body.kind, Body.fields, Body.inputFields,
      Body.enumValues]

theorem exists_describedParts_iff {d : Definition} {text : String}
    (hextension : d.isExtension = true → d.description = none) :
    (∃ p ∈ describedParts d, p.description = some text) ↔ d.Carries text := by
  rw [describedParts, List.exists_mem_cons_iff, exists_describedMembers_iff]
  constructor
  · rintro (hown | ⟨hd, f, hf, ht | ⟨a, ha, ht⟩⟩ | ⟨hd, v, hv, ht⟩ | ⟨hd, v, hv, ht⟩)
    · refine .own ?_ hown
      by_contra hext
      rw [hextension (by simpa using hext)] at hown
      cases hown
    · exact .field hd hf ht
    · exact .argument hd hf ha ht
    · exact .inputField hd hv ht
    · exact .enumValue hd hv ht
  · intro h
    cases h with
    | own _ ht => exact .inl ht
    | field hd hf ht => exact .inr (.inl ⟨hd, _, hf, .inl ht⟩)
    | argument hd hf ha ht => exact .inr (.inl ⟨hd, _, hf, .inr ⟨_, ha, ht⟩⟩)
    | inputField hd hv ht => exact .inr (.inr (.inl ⟨hd, _, hv, ht⟩))
    | enumValue hd hv ht => exact .inr (.inr (.inr ⟨hd, _, hv, ht⟩))

theorem descriptionsAreCapitalized_silent_iff
    (hextension : ∀ d ∈ doc.definitions, d.isExtension = true → d.description = none) :
    descriptionsAreCapitalized.findings doc = [] ↔
      ∀ d ∈ doc.definitions, ∀ text, d.Carries text → Capitalized text := by
  unfold descriptionsAreCapitalized
  simp only [List.map_eq_nil_iff, List.filter_eq_nil_iff, List.forall_mem_flatMap,
    Bool.not_eq_true, isLowercase_eq_false_iff]
  refine forall₂_congr fun d hd => ?_
  constructor
  · intro h text hcarries
    obtain ⟨p, hp, ht⟩ := (exists_describedParts_iff (hextension d hd)).mpr hcarries
    exact h p hp text ht
  · intro h p hp text ht
    exact h text ((exists_describedParts_iff (hextension d hd)).mp ⟨p, hp, ht⟩)

/-! ### Order of members -/

theorem unsortedTypes_eq_nil_iff {kind : TypeKind} {subject : String}
    {members : Definition → List Name}
    (h : ∀ d, d.kind = kind → (members d).map (·.text) = d.memberNames) :
    unsortedTypes doc kind subject members = [] ↔
      ∀ d ∈ doc.definitions, d.Defines kind → d.memberNames.Pairwise (· ≤ ·) := by
  simp only [unsortedTypes, List.filterMap_eq_nil_iff, mem_typesOf, and_imp,
    unsorted?_eq_none_iff]
  refine forall₂_congr fun d _ => forall_congr' fun hd => ?_
  rw [h d hd.2]

theorem memberNames_enumValues {d : Definition} (h : d.kind = .enum) :
    (d.body.enumValues.map (·.name)).map (·.text) = d.memberNames := by
  unfold Definition.kind at h
  unfold Definition.memberNames
  cases hbody : d.body <;> simp_all [Body.kind, Body.enumValues]

theorem memberNames_inputFields {d : Definition} (h : d.kind = .input) :
    (d.body.inputFields.map (·.name)).map (·.text) = d.memberNames := by
  unfold Definition.kind at h
  unfold Definition.memberNames
  cases hbody : d.body <;> simp_all [Body.kind, Body.inputFields]

theorem memberNames_fields {d : Definition} (h : d.kind = .object ∨ d.kind = .interface) :
    (d.body.fields.map (·.name)).map (·.text) = d.memberNames := by
  unfold Definition.kind at h
  unfold Definition.memberNames
  cases hbody : d.body <;> simp_all [Body.kind, Body.fields]

theorem enumValuesSorted_silent_iff : enumValuesSorted.findings doc = [] ↔
    ∀ d ∈ doc.definitions, d.Defines .enum → d.memberNames.Pairwise (· ≤ ·) := by
  unfold enumValuesSorted
  dsimp only
  rw [List.map_eq_nil_iff]
  exact unsortedTypes_eq_nil_iff fun _ => memberNames_enumValues

theorem inputFieldsSorted_silent_iff : inputFieldsSorted.findings doc = [] ↔
    ∀ d ∈ doc.definitions, d.Defines .input → d.memberNames.Pairwise (· ≤ ·) :=
  unsortedTypes_eq_nil_iff fun _ => memberNames_inputFields

theorem typeFieldsSorted_silent_iff : typeFieldsSorted.findings doc = [] ↔
    ∀ d ∈ doc.definitions, d.Defines .object → d.memberNames.Pairwise (· ≤ ·) :=
  unsortedTypes_eq_nil_iff fun _ h => memberNames_fields (.inl h)

theorem interfaceFieldsSorted_silent_iff : interfaceFieldsSorted.findings doc = [] ↔
    ∀ d ∈ doc.definitions, d.Defines .interface → d.memberNames.Pairwise (· ≤ ·) :=
  unsortedTypes_eq_nil_iff fun _ h => memberNames_fields (.inr h)

/-- The four rules on order together. Unions and scalars have no members to order. -/
theorem ordered_iff : (∀ d ∈ doc.definitions, d.isExtension = false →
      d.memberNames.Pairwise (· ≤ ·)) ↔
    ∀ kind ∈ [TypeKind.enum, .input, .object, .interface],
      ∀ d ∈ doc.definitions, d.Defines kind → d.memberNames.Pairwise (· ≤ ·) := by
  constructor
  · intro h kind _ d hd hdefines
    exact h d hd hdefines.1
  · intro h d hd hext
    by_cases hmem : d.kind ∈ [TypeKind.enum, .input, .object, .interface]
    · exact h _ hmem d hd ⟨hext, rfl⟩
    · have hnone : d.memberNames = [] := by
        unfold Definition.kind at hmem
        unfold Definition.memberNames
        cases hbody : d.body <;> simp_all [Body.kind]
      rw [hnone]
      exact .nil

/-! ### Types that are asked for, and connections -/

theorem definesObject_iff {name : String} : definesObject doc name = true ↔
    ∃ d ∈ doc.definitions, d.Defines .object ∧ d.name.text = name := by
  simp [definesObject, mem_typesOf, and_assoc]

theorem queryRoot_silent_iff : queryRoot.findings doc = [] ↔
    ∃ d ∈ doc.definitions, d.Defines .object ∧ d.name.text = "Query" := by
  rw [← definesObject_iff, queryRoot]
  simp

theorem relayPageInfo_silent_iff : relayPageInfo.findings doc = [] ↔
    ∃ d ∈ doc.definitions, d.Defines .object ∧ d.name.text = "PageInfo" := by
  rw [← definesObject_iff, relayPageInfo]
  simp

theorem relayConnectionTypes_silent_iff : relayConnectionTypes.findings doc = [] ↔
    ∀ d ∈ doc.definitions, d.Defines .object → ConnectionName d.name.text →
      d.DeclaresField "pageInfo" ∧ d.DeclaresField "edges" := by
  unfold relayConnectionTypes
  simp only [List.flatMap_eq_nil_iff, List.map_eq_nil_iff, List.filter_eq_nil_iff,
    List.mem_filter, mem_typesOf, isConnection_iff, and_imp]
  refine forall₂_congr fun d _ => forall₂_congr fun _ _ => ?_
  simp [connectionFields, Definition.DeclaresField]

theorem canPage_iff (f : Field) : canPage f = true ↔
    f.Takes "first" ∧ f.Takes "after" ∨ f.Takes "last" ∧ f.Takes "before" := by
  simp [canPage, Field.Takes]

theorem relayConnectionArguments_silent_iff : relayConnectionArguments.findings doc = [] ↔
    ∀ d ∈ doc.definitions, d.Fielded → ∀ f ∈ d.body.fields, ConnectionName f.type.base →
      f.Takes "first" ∧ f.Takes "after" ∨ f.Takes "last" ∧ f.Takes "before" := by
  unfold relayConnectionArguments
  dsimp only
  rw [flatMap_map_filter_eq_nil_iff]
  simp only [mem_withArguments, and_imp, Bool.and_eq_false_imp, Bool.not_eq_false',
    isConnection_iff, canPage_iff]

/-! ### References -/

theorem exists_references_iff {d : Definition} {name : String} :
    (∃ r ∈ references d, r.type.base = name) ↔ d.RefersTo name := by
  unfold references
  constructor
  · rintro ⟨r, hr, rfl⟩
    rcases List.mem_append.mp hr with hr | hr
    · obtain ⟨f, hf, hr⟩ := List.mem_flatMap.mp hr
      rcases List.mem_cons.mp hr with rfl | hr
      · exact .field hf
      · obtain ⟨a, ha, rfl⟩ := List.mem_map.mp hr
        exact .argument hf ha
    · obtain ⟨v, hv, rfl⟩ := List.mem_map.mp hr
      exact .inputField hv
  · intro h
    cases h with
    | @field f hf =>
      exact ⟨_, List.mem_append_left _ (List.mem_flatMap.mpr ⟨f, hf, List.mem_cons_self⟩), rfl⟩
    | @argument f a hf ha =>
      obtain ⟨r, hr, hbase⟩ : ∃ r ∈ fieldReferences d.name.text f, r.type.base = a.type.base :=
        ⟨_, List.mem_cons_of_mem _ (List.mem_map.mpr ⟨a, ha, rfl⟩), rfl⟩
      exact ⟨r, List.mem_append_left _ (List.mem_flatMap.mpr ⟨f, hf, hr⟩), hbase⟩
    | @inputField v hv =>
      exact ⟨_, List.mem_append_right _ (List.mem_map.mpr ⟨v, hv, rfl⟩), rfl⟩

theorem usedTypes_eq (d : Definition) :
    usedTypes d = (references d).map (·.type.base) ++ d.body.unionMembers := by
  simp [usedTypes, references, fieldReferences, List.map_flatMap, Function.comp_def]

theorem mem_usedTypes_iff {d : Definition} {name : String} :
    name ∈ usedTypes d ↔ d.RefersTo name ∨ name ∈ d.body.unionMembers := by
  rw [usedTypes_eq, List.mem_append, List.mem_map, exists_references_iff]

theorem definedTypesAreUsed_silent_iff : definedTypesAreUsed.findings doc = [] ↔
    ∀ d ∈ doc.definitions, d.isExtension = false → d.name.text ∉ rootOperationTypes →
      ∃ e ∈ doc.definitions, e.RefersTo d.name.text ∨ d.name.text ∈ e.body.unionMembers := by
  unfold definedTypesAreUsed usedTypeNames
  simp only [List.map_eq_nil_iff, List.filter_eq_nil_iff, ← mem_usedTypes_iff,
    ← List.mem_flatMap]
  simp [imp_iff_not_or, or_assoc]

theorem undefinedType_silent_iff : undefinedType.findings doc = [] ↔
    ∀ d ∈ doc.definitions, ∀ name, d.RefersTo name →
      name ∈ builtInScalars ∨ ∃ e ∈ doc.definitions, e.name.text = name := by
  unfold undefinedType SchemaDocument.definedTypeNames
  simp only [List.map_eq_nil_iff, List.filter_eq_nil_iff, List.forall_mem_flatMap,
    ← exists_references_iff, forall_exists_index, and_imp]
  simp [or_iff_not_imp_left]

/-! ### Directives and composition -/

theorem isUnknown_eq_false_iff (x : Directive) :
    isUnknown x = false ↔ x.name ∈ allowedDirectives := by
  simp [isUnknown]

theorem invalidDirective_silent_iff : invalidDirective.findings doc = [] ↔
    ∀ d ∈ doc.definitions, d.kind = .object →
      (∀ x ∈ d.directives, x.name ∈ allowedDirectives) ∧
        ∀ f ∈ d.body.fields, ∀ x ∈ f.directives, x.name ∈ allowedDirectives := by
  unfold invalidDirective unknownDirectives
  simp only [List.flatMap_eq_nil_iff, List.append_eq_nil_iff, List.map_eq_nil_iff,
    List.filter_eq_nil_iff, mem_objects, and_imp, Bool.not_eq_true, isUnknown_eq_false_iff]

theorem selectedFields_eq_ok_iff {text : String} {fields : List String} (h : fields ≠ []) :
    selectedFields text = .ok fields ↔ NotBlank text ∧ readFieldSet text = .ok fields := by
  unfold selectedFields
  rw [← allBlank_eq_false_iff]
  by_cases hblank : allBlank text.toList = true
  · rw [if_pos hblank]
    simp [hblank, h.symm]
  · rw [if_neg hblank]
    simp [hblank]

theorem selects_iff {x : Directive} {fields : List String} : x.Selects fields ↔
    fields ≠ [] ∧ ∃ text, x.stringArgument? "fields" = some text ∧
      selectedFields text = .ok fields := by
  unfold Directive.Selects
  constructor
  · rintro ⟨text, htext, hblank, hread, hne⟩
    exact ⟨hne, text, htext, (selectedFields_eq_ok_iff hne).mpr ⟨hblank, hread⟩⟩
  · rintro ⟨hne, text, htext, hselected⟩
    obtain ⟨hblank, hread⟩ := (selectedFields_eq_ok_iff hne).mp hselected
    exact ⟨text, htext, hblank, hread, hne⟩

theorem keyErrors_eq_nil_iff {declared : List String} {typeName : String} {x : Directive} :
    keyErrors declared typeName x = [] ↔
      ∃ fields, x.Selects fields ∧ ∀ name ∈ fields, name ∈ declared := by
  simp only [selects_iff]
  unfold keyErrors
  cases x.stringArgument? "fields" with
  | none => simp
  | some text =>
    cases hselected : selectedFields text with
    | error fault => simp [hselected]
    | ok fields =>
      cases fields with
      | nil => simp [hselected]
      | cons first rest => simp [hselected]

theorem fieldSetErrors_eq_nil_iff {typeName field : String} {x : Directive} :
    fieldSetErrors typeName field x = [] ↔ ∃ fields, x.Selects fields := by
  simp only [selects_iff]
  unfold fieldSetErrors
  cases x.stringArgument? "fields" with
  | none => simp
  | some text =>
    cases hselected : selectedFields text with
    | error fault => simp [hselected]
    | ok fields =>
      cases fields with
      | nil => simp [hselected]
      | cons first rest => simp [hselected]

theorem overrideErrors_eq_nil_iff {typeName field : String} {x : Directive} :
    overrideErrors typeName field x = [] ↔
      ∃ text, x.stringArgument? "from" = some text ∧ NotBlank text := by
  simp only [← allBlank_eq_false_iff]
  unfold overrideErrors
  cases x.stringArgument? "from" with
  | none => simp
  | some text => simp

theorem fieldErrors_eq_nil_iff {typeName field : String} {x : Directive} :
    fieldErrors typeName field x = [] ↔
      (x.name = "requires" ∨ x.name = "provides" → ∃ fields, x.Selects fields) ∧
      (x.name = "override" → ∃ text, x.stringArgument? "from" = some text ∧ NotBlank text) := by
  rw [← @fieldSetErrors_eq_nil_iff typeName field, ← @overrideErrors_eq_nil_iff typeName field]
  unfold fieldErrors
  by_cases hset : x.name = "requires" ∨ x.name = "provides"
  · have hother : x.name ≠ "override" := by
      rcases hset with h | h <;> rw [h] <;> decide
    simp [hset, hother]
  · by_cases hoverride : x.name = "override" <;> simp [hset, hoverride]

/-- Only object and interface types have fields. -/
theorem isComposite_of_mem_fields {d : Definition} {f : Field} (h : f ∈ d.body.fields) :
    isComposite d = true := by
  unfold isComposite Definition.kind
  cases hbody : d.body <;> simp_all [Body.fields, Body.kind]

theorem mem_declaredFields_iff {ds : List Definition} {typeName name : String} :
    name ∈ declaredFields ds typeName ↔
      ∃ e ∈ ds, e.name.text = typeName ∧ e.DeclaresField name := by
  simp only [declaredFields, List.mem_flatMap, List.mem_filter, List.mem_map, Bool.and_eq_true,
    beq_iff_eq]
  constructor
  · rintro ⟨e, ⟨he, -, hname⟩, f, hf, hfield⟩
    exact ⟨e, he, hname, f, hf, hfield⟩
  · rintro ⟨e, he, hname, f, hf, hfield⟩
    exact ⟨e, ⟨he, isComposite_of_mem_fields hf, hname⟩, f, hf, hfield⟩

theorem definitionErrors_eq_nil_iff {ds : List Definition} {d : Definition} :
    definitionErrors ds d = [] ↔
      (∀ x ∈ d.directives, x.name = "key" → ∃ fields, x.Selects fields ∧
        ∀ name ∈ fields, ∃ e ∈ ds, e.name.text = d.name.text ∧ e.DeclaresField name) ∧
      ∀ f ∈ d.body.fields, ∀ x ∈ f.directives,
        (x.name = "requires" ∨ x.name = "provides" → ∃ fields, x.Selects fields) ∧
        (x.name = "override" →
          ∃ text, x.stringArgument? "from" = some text ∧ NotBlank text) := by
  simp only [definitionErrors, List.append_eq_nil_iff, List.flatMap_eq_nil_iff,
    List.map_eq_nil_iff, List.mem_filter, beq_iff_eq, and_imp, keyErrors_eq_nil_iff,
    mem_declaredFields_iff, fieldErrors_eq_nil_iff]

theorem isComposite_iff {d : Definition} :
    isComposite d = true ↔ d.kind = .object ∨ d.kind = .interface := by
  simp [isComposite]

theorem errorsOfDefinitions_eq_nil_iff {text : String} {ds : List Definition} :
    errorsOfDefinitions text ds = [] ↔ Composes ds := by
  simp only [errorsOfDefinitions, List.map_eq_nil_iff, List.flatMap_eq_nil_iff, List.mem_filter,
    and_imp, definitionErrors_eq_nil_iff]
  constructor
  · intro h
    have hfield : ∀ d ∈ ds, ∀ f ∈ d.body.fields, ∀ x ∈ f.directives, _ :=
      fun d hd f hf => (h d hd (isComposite_of_mem_fields hf)).2 f hf
    exact ⟨fun d hd hkind => (h d hd (isComposite_iff.mpr hkind)).1,
      fun d hd f hf x hx => (hfield d hd f hf x hx).1,
      fun d hd f hf x hx => (hfield d hd f hf x hx).2⟩
  · intro h d hd hcomposite
    exact ⟨h.keys d hd (isComposite_iff.mp hcomposite), fun f hf x hx =>
      ⟨h.fieldSets d hd f hf x hx, h.overrides d hd f hf x hx⟩⟩

theorem composition_silent_iff
    (hreadable : (read (stripCommentLines doc.source)).faults = []) :
    composition.findings doc = [] ↔
      Composes (read (stripCommentLines doc.source)).definitions := by
  rw [composition_findings, List.map_eq_nil_iff, compositionErrors_of_readable hreadable,
    errorsOfDefinitions_eq_nil_iff]

end Silence

/-! ## Extensions have no description -/

namespace Sdl.Parser

/-- Whatever the production yields has the property. -/
def Yields {α : Type} (P : α → Prop) (p : Parser α) : Prop := ∀ s : State, P (p s).1

namespace Yields

variable {α β : Type} {P : α → Prop}

theorem pure {a : α} (h : P a) : Yields P (Pure.pure a : Parser α) := fun _ => h

theorem bind {p : Parser α} {f : α → Parser β} {Q : β → Prop} (hp : Yields P p)
    (hf : ∀ a, P a → Yields Q (f a)) : Yields Q (p >>= f) :=
  fun s => hf (p s).1 (hp s) (p s).2

/-- The yield of the first production does not matter. -/
theorem after {p : Parser β} {f : β → Parser α} (hf : ∀ b, Yields P (f b)) :
    Yields P (p >>= f) :=
  fun s => hf (p s).1 (p s).2

theorem ite {c : Prop} [Decidable c] {p q : Parser α} (hp : Yields P p) (hq : Yields P q) :
    Yields P (if c then p else q) := by
  split
  · exact hp
  · exact hq

theorem atMost {step : Parser (Option α)} (h : Yields (∀ a ∈ ·, P a) step) (turns : Nat) :
    Yields (∀ a ∈ ·, P a) (atMost step turns) := by
  induction turns with
  | zero => exact .pure (by simp)
  | succ turns ih =>
    refine h.bind fun o ho => ?_
    cases o with
    | none => exact .pure (by simp)
    | some a =>
      refine ih.bind fun rest hrest => .pure ?_
      rw [List.forall_mem_cons]
      exact ⟨ho a rfl, hrest⟩

end Yields

/-- A definition may be described, an extension is not. -/
def PlainExtension (d : Definition) : Prop := d.isExtension = true → d.description = none

theorem yields_typeDefinition (kind : TypeKind) :
    Yields (∀ d ∈ ·, PlainExtension d) (typeDefinition kind) := by
  refine .after fun _ => .after fun _ => .after fun _ => .after fun n => .after fun _ => .pure ?_
  cases n <;> simp [PlainExtension]

theorem yields_typeExtension (kind : TypeKind) :
    Yields (∀ d ∈ ·, PlainExtension d) (typeExtension kind) := by
  refine .after fun offset => .after fun _ => .after fun _ => .after fun n => .after fun parts => ?_
  have hlast : Yields (∀ d ∈ ·, PlainExtension d)
      (Pure.pure (n.map fun n => ⟨true, none, n, parts.directives, parts.body, offset⟩)) := by
    refine .pure ?_
    cases n <;> simp [PlainExtension]
  exact .ite (.after fun _ => hlast) hlast

theorem yields_ignored {p : Parser Unit} :
    Yields (∀ d ∈ ·, PlainExtension d) (do p; return none) :=
  .after fun _ => .pure (by simp)

theorem yields_definition (word : String) :
    Yields (∀ d ∈ ·, PlainExtension d) (definition word) := by
  unfold definition
  split
  · exact yields_typeDefinition _
  · refine .ite ?_ (.ite ?_ (.ite ?_ (.ite ?_ (.ite ?_ ?_))))
    · refine .after fun _ => ?_
      dsimp only
      split
      · exact yields_typeExtension _
      · exact .ite yields_ignored yields_ignored
    all_goals exact yields_ignored

theorem yields_nextDefinition :
    Yields (∀ o ∈ ·, ∀ d ∈ o, PlainExtension d) nextDefinition := by
  have hword : ∀ word, Yields (∀ o ∈ ·, ∀ d ∈ o, PlainExtension d)
      (do return some (← definition word)) :=
    fun word => (yields_definition word).bind fun o ho => .pure (by simpa using ho)
  refine .after fun t => ?_
  cases t with
  | none => exact .pure (by simp)
  | some t =>
    dsimp only
    split
    · exact .pure (by simp)
    · exact .after fun _ => hword _
    · exact hword _
    · exact hword _
    · exact .after fun _ => .pure (by simp)

theorem yields_document : Yields (∀ d ∈ ·, PlainExtension d) document := by
  have hrest : Yields (∀ d ∈ ·, PlainExtension d) (do
      let items ← many nextDefinition
      return items.filterMap id) := by
    refine Yields.bind (.after fun _ => yields_nextDefinition.atMost _) fun items hitems => ?_
    refine .pure fun d hd => ?_
    obtain ⟨o, ho, hsome⟩ := List.mem_filterMap.mp hd
    exact hitems o ho d hsome
  exact .after fun _ => .ite (.after fun _ => hrest) hrest

end Sdl.Parser

theorem plainExtension_of_mem_read {text : String} {d : Definition}
    (h : d ∈ (read text).definitions) : Parser.PlainExtension d :=
  Parser.yields_document (.start (tokens text)) d h

/-! ## Reports without a diagnostic -/

theorem parse_definitions (path source : String) :
    (SchemaDocument.parse path source).definitions =
      (read (maskCommentLines source)).definitions := by
  unfold SchemaDocument.parse
  dsimp only

theorem lintSource_default_eq_nil_iff (path source : String) :
    (lintSource path source {}).diagnostics = [] ↔
      (SchemaDocument.parse path source).syntaxErrors = [] ∧
        ∀ rule ∈ catalogue, rule.findings (.parse path source) = [] := by
  simp only [lintSource_default_diagnostics, SchemaDocument.syntaxDiagnostics, Rule.check,
    SchemaDocument.diagnostics_eq_map, List.append_eq_nil_iff, List.map_eq_nil_iff,
    List.flatMap_eq_nil_iff]

/-- The rules of the catalogue together. -/
theorem silent_iff_clean {doc : SchemaDocument} (hreadable : doc.syntaxErrors = [])
    (htypes : ∀ d ∈ doc.definitions, isName d.name.text = true)
    (hvalues : ∀ d ∈ doc.definitions, ∀ v ∈ d.body.enumValues, isName v.name.text = true)
    (hextension : ∀ d ∈ doc.definitions, Parser.PlainExtension d)
    (hstrip : (read (stripCommentLines doc.source)).faults = []) :
    (∀ rule ∈ catalogue, rule.findings doc = []) ↔ doc.Clean := by
  have hordered := @ordered_iff doc
  simp only [catalogue, List.forall_mem_cons, List.not_mem_nil, false_imp_iff, implies_true,
    and_true, typesAreCapitalized_silent_iff htypes, typesHaveDescriptions_silent_iff,
    fieldsHaveDescriptions_silent_iff, fieldsAreCamelCased_silent_iff,
    argumentsHaveDescriptions_silent_iff, enumValuesHaveDescriptions_silent_iff,
    inputValuesHaveDescriptions_silent_iff, inputValuesAreCamelCased_silent_iff,
    deprecationsHaveAReason_silent_iff, descriptionsAreCapitalized_silent_iff hextension,
    enumValuesSorted_silent_iff, inputFieldsSorted_silent_iff, typeFieldsSorted_silent_iff,
    interfaceFieldsSorted_silent_iff, queryRoot_silent_iff, relayPageInfo_silent_iff,
    relayConnectionTypes_silent_iff, relayConnectionArguments_silent_iff,
    definedTypesAreUsed_silent_iff, undefinedType_silent_iff, invalidEnumValue_silent hvalues,
    suspiciousEnumValue_silent_iff, invalidDirective_silent_iff, composition_silent_iff hstrip,
    true_and] at hordered ⊢
  constructor
  · rintro ⟨hcapital, htype, hfield, hcamel, hargument, hvalue, hinput, hinputCamel, hreason,
      hdescription, hsortEnum, hsortInput, hsortType, hsortInterface, hquery, hpage,
      hconnection, hpaging, hused, hdefined, hdigit, hdirective, hcomposes⟩
    exact {
      readable := hreadable
      root := hquery
      pageInfo := hpage
      types := fun d hd h => ⟨htype d hd h, hcapital d hd h⟩
      fields := fun d hd h f hf => ⟨hfield d hd h f hf, hcamel d hd h f hf⟩
      arguments := hargument
      enumValues := fun d hd h v hv => ⟨hvalue d hd h v hv, hreason d hd h v hv⟩
      digits := hdigit
      inputFields := fun d hd h v hv => ⟨hinput d hd h v hv, hinputCamel d hd h v hv⟩
      descriptions := hdescription
      ordered := hordered.mpr ⟨hsortEnum, hsortInput, hsortType, hsortInterface⟩
      connections := hconnection
      paging := hpaging
      used := hused
      defined := hdefined
      directives := hdirective
      composes := hcomposes }
  · intro h
    obtain ⟨hsortEnum, hsortInput, hsortType, hsortInterface⟩ := hordered.mp h.ordered
    exact ⟨fun d hd hk => (h.types d hd hk).2, fun d hd hk => (h.types d hd hk).1,
      fun d hd hk f hf => (h.fields d hd hk f hf).1, fun d hd hk f hf => (h.fields d hd hk f hf).2,
      h.arguments, fun d hd hk v hv => (h.enumValues d hd hk v hv).1,
      fun d hd hk v hv => (h.inputFields d hd hk v hv).1,
      fun d hd hk v hv => (h.inputFields d hd hk v hv).2,
      fun d hd hk v hv => (h.enumValues d hd hk v hv).2, h.descriptions, hsortEnum, hsortInput,
      hsortType, hsortInterface, h.root, h.pageInfo, h.connections, h.paging, h.used, h.defined,
      h.digits, h.directives, h.composes⟩

/-- Names in a document without syntax errors are names of the language. -/
theorem isName_of_mem_parse_marks {path source : String}
    (h : (SchemaDocument.parse path source).syntaxErrors = []) {d : Definition}
    (hd : d ∈ (SchemaDocument.parse path source).definitions) {n : Name}
    (hn : .name n ∈ d.marks) : isName n.text = true := by
  refine isName_of_mem_read_marks (syntaxErrors_eq_nil_iff.mp h) ?_
  rw [parse_definitions] at hd
  exact List.mem_flatMap.mpr ⟨d, hd, hn⟩

/-- Under the default configuration a text is reported on unless it reads as a clean
schema. -/
theorem lintSource_diagnostics_eq_nil_iff (path source : String) :
    (lintSource path source {}).diagnostics = [] ↔ (SchemaDocument.parse path source).Clean := by
  rw [lintSource_default_eq_nil_iff]
  have hclean : (SchemaDocument.parse path source).syntaxErrors = [] →
      ((∀ rule ∈ catalogue, rule.findings (.parse path source) = []) ↔
        (SchemaDocument.parse path source).Clean) := by
    intro hreadable
    refine silent_iff_clean hreadable (fun d hd => ?_) (fun d hd v hv => ?_) (fun d hd => ?_) ?_
    · exact isName_of_mem_parse_marks hreadable hd d.name_mem_marks
    · refine isName_of_mem_parse_marks hreadable hd ?_
      exact mem_marks_of_enumValue (List.mem_map_of_mem hv)
    · rw [parse_definitions] at hd
      exact plainExtension_of_mem_read hd
    · rw [parse_source]
      exact (read_stripCommentLines (syntaxErrors_eq_nil_iff.mp hreadable)).1
  constructor
  · rintro ⟨hreadable, hsilent⟩
    exact (hclean hreadable).mp hsilent
  · intro h
    exact ⟨h.readable, (hclean h.readable).mpr h⟩

end SchemaLint
