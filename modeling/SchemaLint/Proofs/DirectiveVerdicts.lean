import SchemaLint.Proofs.DefinitionOrder
import SchemaLint.Proofs.Sdl.FieldSets

/-!
# Verdicts on federation directives

The composition check goes through the directives that are applied to object and interface
types, to extensions of them and to their fields, and judges one application after the
other. A key is judged by the fields that its type declares anywhere in the text, the other
directives by what they say themselves. Where a field set selects fragments only, it is
called empty.
-/

namespace SchemaLint

open Sdl Rule Federation Source Text

/-! ## Applications of directives -/

/-- A directive where it is applied: to a type, or to a field of the type. -/
structure Application where
  owner : String
  field? : Option String
  directive : Directive
  deriving DecidableEq, Repr

namespace Application

/-- A key counts on a type. -/
def IsKey (a : Application) : Prop := a.field? = none ∧ a.directive.name = "key"

/-- The directives that count on a field. -/
def IsOverride (a : Application) : Prop := a.field? ≠ none ∧ a.directive.name = "override"

def CarriesFieldSet (a : Application) : Prop :=
  a.field? ≠ none ∧ (a.directive.name = "requires" ∨ a.directive.name = "provides")

/-- What the composition check says of an application. -/
def messages (ds : List Definition) (a : Application) : List String :=
  match a.field? with
  | none =>
      if a.directive.name == "key" then
        keyErrors (declaredFields ds a.owner) a.owner a.directive
      else []
  | some field => fieldErrors a.owner field a.directive

/-- The same as errors, on the line of the directive. -/
def errors (text : String) (ds : List Definition) (a : Application) : List CompositionError :=
  (a.messages ds).map fun message =>
    ⟨(LineIndex.ofText text).lineOfOffset a.directive.offset, message⟩

end Application

/-- The directives on a definition, and then those on its fields. -/
def Sdl.Definition.applications (d : Definition) : List Application :=
  d.directives.map (⟨d.name.text, none, ·⟩) ++
    d.body.fields.flatMap fun f => f.directives.map (⟨d.name.text, some f.name.text, ·⟩)

/-- All that federation looks at. -/
def applications (ds : List Definition) : List Application :=
  (ds.filter isComposite).flatMap Definition.applications

/-- On a type only keys count. -/
theorem flatMap_keyErrors (ds : List Definition) (typeName : String) (xs : List Directive) :
    (xs.filter (·.name == "key")).flatMap (fun x =>
        (keyErrors (declaredFields ds typeName) typeName x).map (x, ·)) =
      (xs.map (⟨typeName, none, ·⟩)).flatMap fun a : Application =>
        (a.messages ds).map (a.directive, ·) := by
  induction xs with
  | nil => rfl
  | cons x xs ih =>
    rw [List.map_cons, List.flatMap_cons, ← ih, List.filter_cons]
    by_cases hkey : x.name == "key"
    · rw [if_pos hkey, List.flatMap_cons]
      simp only [Application.messages, hkey, if_pos]
    · rw [if_neg hkey]
      simp [Application.messages, hkey]

theorem definitionErrors_eq (ds : List Definition) (d : Definition) :
    definitionErrors ds d =
      d.applications.flatMap fun a => (a.messages ds).map (a.directive, ·) := by
  rw [definitionErrors, flatMap_keyErrors, Definition.applications, List.flatMap_append]
  congr 1
  rw [List.flatMap_assoc]
  simp only [List.flatMap_map]
  rfl

theorem errorsOfDefinitions_eq (text : String) (ds : List Definition) :
    errorsOfDefinitions text ds = (applications ds).flatMap (·.errors text ds) := by
  have hsame : definitionErrors ds = fun d => _ := funext (definitionErrors_eq ds)
  unfold errorsOfDefinitions
  dsimp only
  rw [hsame, applications, List.map_flatMap, List.flatMap_assoc]
  simp only [List.map_flatMap, List.map_map]
  rfl

/-- Every error is about one application, and the applications come one after the other. -/
theorem compositionErrors_eq {text : String} (h : (read text).faults = []) :
    compositionErrors text =
      (applications (read text).definitions).flatMap (·.errors text (read text).definitions) := by
  rw [compositionErrors_of_readable h, errorsOfDefinitions_eq]

/-! ## Keys -/

/-- Some definition or extension of the type, as an object or an interface, has the field. -/
def Declares (ds : List Definition) (typeName name : String) : Prop :=
  ∃ e ∈ ds, (e.kind = .object ∨ e.kind = .interface) ∧ e.name.text = typeName ∧
    ∃ f ∈ e.body.fields, f.name.text = name

instance (ds : List Definition) (typeName name : String) : Decidable (Declares ds typeName name) :=
  inferInstanceAs (Decidable (∃ e ∈ ds, _))

theorem declares_iff {ds : List Definition} {typeName name : String} :
    Declares ds typeName name ↔ name ∈ declaredFields ds typeName := by
  rw [mem_declaredFields_iff]
  constructor
  · rintro ⟨e, he, -, hname, hfield⟩
    exact ⟨e, he, hname, hfield⟩
  · rintro ⟨e, he, hname, f, hf, hfield⟩
    exact ⟨e, he, isComposite_iff.mp (isComposite_of_mem_fields hf), hname, f, hf, hfield⟩

theorem stringArgument?_eq_some_iff {x : Directive} {name text : String} :
    x.stringArgument? name = some text ↔ x.argument? name = some (.string text) := by
  unfold Directive.stringArgument?
  split
  · next found hfound => rw [hfound, Option.some_inj, Option.some_inj, Value.string.injEq]
  · next hother =>
    constructor
    · intro h
      cases h
    · intro h
      exact absurd h (hother text)

theorem argument?_string_inj {x : Directive} {name text other : String}
    (h : x.argument? name = some (.string text))
    (hother : x.argument? name = some (.string other)) : other = text := by
  rw [hother, Option.some_inj, Value.string.injEq] at h
  exact h

/-- The directive carries no field set, or one that names no field at its top. -/
inductive Sdl.Directive.Unusable (x : Directive) : Prop
  | noText (h : ∀ text, x.argument? "fields" ≠ some (.string text))
  | blank {text : String} (h : x.argument? "fields" = some (.string text))
      (hblank : allBlank text.toList = true)
  | unreadable {text : String} {fault : Fault} (h : x.argument? "fields" = some (.string text))
      (hread : readFieldSet text = .error fault)
  | fieldless {text : String} (h : x.argument? "fields" = some (.string text))
      (hnone : ∀ selected ∈ selectionsOf text, selected.field? = none)

/-- The names of the fields at the top of a field set, each as often as it is selected. -/
def selectedNames (text : String) : List String := (selectionsOf text).filterMap Selection.field?

theorem selectedNames_eq_nil_iff {text : String} :
    selectedNames text = [] ↔ ∀ selected ∈ selectionsOf text, selected.field? = none :=
  List.filterMap_eq_nil_iff

/-- A field set is at fault, or it comes out as the names of its fields. -/
theorem selectedFields_cases (text : String) :
    (∃ fault, readFieldSet text = .error fault ∧ selectedFields text = .error fault) ∨
      selectedFields text = .ok (selectedNames text) := by
  unfold selectedFields
  split
  · next hblank =>
    right
    rw [selectedNames, selectionsOf_of_allBlank hblank]
    rfl
  · cases hread : readFieldSet text with
    | error fault => exact .inl ⟨fault, rfl, rfl⟩
    | ok names => exact .inr (by rw [names_of_readFieldSet hread]; rfl)

theorem selectedFields_of_not_unusable {x : Directive} {text : String}
    (htext : x.argument? "fields" = some (.string text)) (h : ¬ x.Unusable) :
    selectedFields text = .ok (selectedNames text) ∧ selectedNames text ≠ [] := by
  constructor
  · rcases selectedFields_cases text with ⟨fault, hread, -⟩ | hok
    · exact absurd (.unreadable htext hread) h
    · exact hok
  · intro hnone
    exact h (.fieldless htext (selectedNames_eq_nil_iff.mp hnone))

theorem selectedFields_of_unusable {x : Directive} {text : String}
    (htext : x.argument? "fields" = some (.string text)) (h : x.Unusable) :
    (∃ fault, selectedFields text = .error fault) ∨ selectedFields text = .ok [] := by
  cases h with
  | noText hnone => exact absurd htext (hnone text)
  | blank hother hblank =>
    obtain rfl := argument?_string_inj htext hother
    exact .inr (if_pos hblank)
  | unreadable hother hread =>
    obtain rfl := argument?_string_inj htext hother
    rw [selectedFields, hread]
    split
    · exact .inr rfl
    · exact .inl ⟨_, rfl⟩
  | fieldless hother hnone =>
    obtain rfl := argument?_string_inj htext hother
    rcases selectedFields_cases _ with ⟨fault, -, hfault⟩ | hok
    · exact .inl ⟨fault, hfault⟩
    · rw [selectedNames_eq_nil_iff.mpr hnone] at hok
      exact .inr hok

theorem not_unusable_iff {x : Directive} : ¬ x.Unusable ↔ ∃ fields, x.Selects fields := by
  simp only [selects_iff, stringArgument?_eq_some_iff]
  constructor
  · intro h
    obtain ⟨text, htext⟩ : ∃ text, x.argument? "fields" = some (.string text) := by
      by_contra hnone
      exact h (.noText (not_exists.mp hnone))
    obtain ⟨hok, hne⟩ := selectedFields_of_not_unusable htext h
    exact ⟨_, hne, text, htext, hok⟩
  · rintro ⟨fields, hne, text, htext, hok⟩ hunusable
    rcases selectedFields_of_unusable htext hunusable with ⟨fault, hfault⟩ | hnone
    · rw [hfault] at hok
      cases hok
    · rw [hnone] at hok
      exact hne (Except.ok.inj hok).symm

/-- How a key is reported for a field that its type does not declare. -/
def undeclaredMessage (typeName name : String) : String :=
  "@key on " ++ ticked typeName ++ " selects " ++ ticked name ++ ", which " ++ ticked typeName ++
    " does not declare."

section Keys

variable {x : Directive} {ds : List Definition} {typeName : String}

theorem length_keyErrors_of_unusable (declared : List String) (h : x.Unusable) :
    (keyErrors declared typeName x).length = 1 := by
  unfold keyErrors
  cases htext : x.stringArgument? "fields" with
  | none => rfl
  | some text =>
    rcases selectedFields_of_unusable (stringArgument?_eq_some_iff.mp htext) h with
      ⟨fault, hfault⟩ | hnone
    · simp only [hfault]
      rfl
    · simp only [hnone]
      rfl

theorem keyErrors_of_not_unusable {text : String}
    (htext : x.argument? "fields" = some (.string text)) (h : ¬ x.Unusable) :
    keyErrors (declaredFields ds typeName) typeName x =
      ((selectedNames text).filter fun name => ¬ Declares ds typeName name).map
        (undeclaredMessage typeName) := by
  obtain ⟨hok, hne⟩ := selectedFields_of_not_unusable htext h
  have hdeclared : ∀ name, (!(declaredFields ds typeName).contains name) =
      decide (¬ Declares ds typeName name) := by
    intro name
    rw [List.contains_eq_mem, ← decide_not]
    exact decide_eq_decide.mpr (not_congr declares_iff.symm)
  unfold keyErrors
  simp only [stringArgument?_eq_some_iff.mpr htext, hok, hdeclared]
  rfl

/-- Of a key only its arguments count. -/
theorem keyErrors_arguments {y : Directive} (h : x.arguments = y.arguments)
    (declared : List String) : keyErrors declared typeName x = keyErrors declared typeName y := by
  have hargument : x.stringArgument? "fields" = y.stringArgument? "fields" := by
    rw [Directive.stringArgument?, Directive.stringArgument?, Directive.argument?,
      Directive.argument?, h]
  rw [keyErrors, keyErrors, hargument]

end Keys

/-! ## Overrides -/

/-- The argument that names the subgraph is missing, is no string or is blank. -/
def Sdl.Directive.NamesNoSubgraph (x : Directive) : Prop :=
  ∀ text, x.argument? "from" = some (.string text) → allBlank text.toList = true

theorem overrideErrors_eq_nil_iff_not_namesNoSubgraph {typeName field : String} {x : Directive} :
    overrideErrors typeName field x = [] ↔ ¬ x.NamesNoSubgraph := by
  simp only [overrideErrors_eq_nil_iff, Directive.NamesNoSubgraph, stringArgument?_eq_some_iff,
    ← allBlank_eq_false_iff]
  push Not
  simp only [ne_eq, Bool.not_eq_true]

theorem length_overrideErrors (typeName field : String) (x : Directive) :
    (overrideErrors typeName field x).length ≤ 1 := by
  unfold overrideErrors
  split
  · exact Nat.le_refl 1
  · exact Nat.zero_le 1

/-! ## Applications -/

namespace Application

variable {ds es : List Definition} {a b : Application}

theorem IsKey.messages_eq (h : a.IsKey) (ds : List Definition) :
    a.messages ds = keyErrors (declaredFields ds a.owner) a.owner a.directive := by
  rw [messages, h.1, h.2]
  rfl

theorem messages_of_field {field : String} (h : a.field? = some field) (ds : List Definition) :
    a.messages ds = fieldErrors a.owner field a.directive := by
  rw [messages, h]

theorem IsOverride.messages_eq (h : a.IsOverride) (ds : List Definition) :
    ∃ field, a.messages ds = overrideErrors a.owner field a.directive := by
  obtain ⟨field, hfield⟩ := Option.ne_none_iff_exists'.mp h.1
  refine ⟨field, ?_⟩
  rw [messages_of_field hfield, fieldErrors, h.2]
  rfl

theorem CarriesFieldSet.messages_eq (h : a.CarriesFieldSet) (ds : List Definition) :
    ∃ field, a.field? = some field ∧
      a.messages ds = fieldSetErrors a.owner field a.directive := by
  obtain ⟨field, hfield⟩ := Option.ne_none_iff_exists'.mp h.1
  refine ⟨field, hfield, ?_⟩
  rw [messages_of_field hfield, fieldErrors]
  rcases h.2 with hname | hname <;> rw [hname] <;> rfl

/-- No other directive counts, and these count nowhere else. -/
theorem messages_of_other (hkey : ¬ a.IsKey) (hoverride : ¬ a.IsOverride)
    (hset : ¬ a.CarriesFieldSet) (ds : List Definition) : a.messages ds = [] := by
  cases hfield : a.field? with
  | none =>
    have hname : a.directive.name ≠ "key" := fun hname => hkey ⟨hfield, hname⟩
    rw [messages, hfield]
    exact if_neg (by simpa using hname)
  | some field =>
    have hplace : a.field? ≠ none := by rw [hfield]; exact Option.some_ne_none field
    have hname : a.directive.name ≠ "override" := fun hname => hoverride ⟨hplace, hname⟩
    have hset : ¬ (a.directive.name = "requires" ∨ a.directive.name = "provides") :=
      fun hname => hset ⟨hplace, hname⟩
    rw [messages_of_field hfield, fieldErrors, if_neg (by simpa using hset),
      if_neg (by simpa using hname)]

/-- What is said of an application, its field set apart if it is on a field. -/
structure Judged (ds : List Definition) (a : Application) : Prop where
  key_unusable : a.IsKey → a.directive.Unusable → (a.messages ds).length = 1
  key_usable : a.IsKey → ∀ text, a.directive.argument? "fields" = some (.string text) →
    ¬ a.directive.Unusable →
    a.messages ds = ((selectedNames text).filter fun name => ¬ Declares ds a.owner name).map
      (undeclaredMessage a.owner)
  override_unnamed : a.IsOverride → a.directive.NamesNoSubgraph → (a.messages ds).length = 1
  override_named : a.IsOverride → ¬ a.directive.NamesNoSubgraph → a.messages ds = []
  other : ¬ a.IsKey → ¬ a.IsOverride → ¬ a.CarriesFieldSet → a.messages ds = []

theorem judged (ds : List Definition) (a : Application) : a.Judged ds where
  key_unusable h hunusable := by
    rw [h.messages_eq]
    exact length_keyErrors_of_unusable _ hunusable
  key_usable h text htext husable := by
    rw [h.messages_eq]
    exact keyErrors_of_not_unusable htext husable
  override_unnamed h hunnamed := by
    obtain ⟨field, hmessages⟩ := h.messages_eq ds
    rw [hmessages]
    have hle := length_overrideErrors a.owner field a.directive
    have hne : overrideErrors a.owner field a.directive ≠ [] :=
      fun hnil => overrideErrors_eq_nil_iff_not_namesNoSubgraph.mp hnil hunnamed
    have hpos := List.length_pos_of_ne_nil hne
    omega
  override_named h hnamed := by
    obtain ⟨field, hmessages⟩ := h.messages_eq ds
    rw [hmessages]
    exact overrideErrors_eq_nil_iff_not_namesNoSubgraph.mpr hnamed
  other := fun hkey hoverride hset => messages_of_other hkey hoverride hset ds

/-- Wherever the fields of its type are declared, a key is judged alike. -/
theorem IsKey.messages_congr (ha : a.IsKey) (hb : b.IsKey) (howner : a.owner = b.owner)
    (harguments : a.directive.arguments = b.directive.arguments)
    (hdeclared : ∀ name, Declares ds a.owner name ↔ Declares es a.owner name) :
    a.messages ds = b.messages es := by
  rw [ha.messages_eq, hb.messages_eq, ← howner, ← keyErrors_arguments harguments]
  refine keyErrors_congr (fun name => ?_) _ _
  rw [← declares_iff, ← declares_iff]
  exact hdeclared name

end Application

/-- The errors of a text are what is said of its applications, and nothing else. What is said
of a key depends on the fields that its type declares in the whole text, and on nothing else
but the key. -/
theorem compositionErrors_verdicts {text : String} (h : (read text).faults = []) :
    compositionErrors text =
        (applications (read text).definitions).flatMap (·.errors text (read text).definitions) ∧
      (∀ a ∈ applications (read text).definitions, a.Judged (read text).definitions) ∧
      ∀ (other : String) (a b : Application), a.IsKey → b.IsKey → a.owner = b.owner →
        a.directive.arguments = b.directive.arguments →
        (∀ name, Declares (read text).definitions a.owner name ↔
          Declares (read other).definitions a.owner name) →
        a.messages (read text).definitions = b.messages (read other).definitions := by
  refine ⟨compositionErrors_eq h, fun a _ => a.judged _, ?_⟩
  intro other a b ha hb howner harguments hdeclared
  exact ha.messages_congr hb howner harguments hdeclared

/-- A type in two parts, with a key that selects a field by another name, one field twice
that neither part has, and a fragment. -/
def shelf : String :=
  "interface Shelf @key(fields: \"no: id gone\x7bx\x7d ... on Book \x7b id \x7d gone\") \x7b\n" ++
  "  id: ID\n\x7d\n" ++
  "extend interface Shelf \x7b row: Int \x7d"

/-- The same with all fields in the extension, in front. -/
def shelfApart : String :=
  "extend interface Shelf \x7b row: Int id: ID \x7d\n" ++
  "interface Shelf @key(fields: \"no: id gone\x7bx\x7d ... on Book \x7b id \x7d gone\")"

/-- The key of the shelf at an offset of the text. -/
def shelfKey (offset : Nat) : Application :=
  ⟨"Shelf", none,
    ⟨"key", [⟨"fields", .string "no: id gone\x7bx\x7d ... on Book \x7b id \x7d gone"⟩], offset⟩⟩

theorem compositionErrors_verdicts_shelf :
    (read shelf).faults = [] ∧ (read shelfApart).faults = [] ∧
      (applications (read shelf).definitions).map (·.messages (read shelf).definitions) =
        [[undeclaredMessage "Shelf" "gone", undeclaredMessage "Shelf" "gone"]] ∧
      (applications (read shelfApart).definitions).map
          (·.messages (read shelfApart).definitions) =
        (applications (read shelf).definitions).map (·.messages (read shelf).definitions) := by
  -- Each text is read once, in the kernel.
  obtain ⟨hfaults, hkeys, hdeclared⟩ : (lexicalFaults (lexemes shelf) = [] ∧
      (Parser.document (.start (tokens shelf))).2.faults = []) ∧
      applications (read shelf).definitions = [shelfKey 16] ∧
      declaredFields (read shelf).definitions "Shelf" = ["id", "row"] := by decide +kernel
  obtain ⟨hfaultsApart, hkeysApart, hdeclaredApart⟩ :
      (lexicalFaults (lexemes shelfApart) = [] ∧
      (Parser.document (.start (tokens shelfApart))).2.faults = []) ∧
      applications (read shelfApart).definitions = [shelfKey 59] ∧
      declaredFields (read shelfApart).definitions "Shelf" = ["row", "id"] := by decide +kernel
  have hreadable : (read shelf).faults = [] := (read_faults_eq_nil_iff shelf).mpr hfaults
  have hapart : (read shelfApart).faults = [] :=
    (read_faults_eq_nil_iff shelfApart).mpr hfaultsApart
  obtain ⟨-, hjudged, hmoved⟩ := compositionErrors_verdicts hreadable
  have husable : ¬ (shelfKey 16).directive.Unusable :=
    not_unusable_iff.mpr ⟨["id", "gone", "gone"], _, rfl, ⟨'n', by decide, by decide⟩,
      readFieldSet_eq_ok_iff.mpr (by decide +kernel), by decide⟩
  have hmessages : (shelfKey 16).messages (read shelf).definitions =
      [undeclaredMessage "Shelf" "gone", undeclaredMessage "Shelf" "gone"] := by
    rw [(hjudged _ (hkeys ▸ List.mem_cons_self)).key_usable ⟨rfl, rfl⟩ _ rfl husable]
    have howner : (shelfKey 16).owner = "Shelf" := rfl
    simp only [howner, declares_iff, hdeclared]
    decide +kernel
  have hsame : (shelfKey 16).messages (read shelf).definitions =
      (shelfKey 59).messages (read shelfApart).definitions := by
    refine hmoved shelfApart _ _ ⟨rfl, rfl⟩ ⟨rfl, rfl⟩ rfl rfl fun name => ?_
    show Declares _ "Shelf" name ↔ Declares _ "Shelf" name
    rw [declares_iff, declares_iff, hdeclared, hdeclaredApart]
    exact (List.Perm.swap "row" "id" []).mem_iff
  rw [hkeys, hkeysApart]
  exact ⟨hreadable, hapart, congrArg (fun ms => [ms]) hmessages,
    congrArg (fun ms => [ms]) hsame.symm⟩

/-! ## Field sets of directives on fields -/

/-- There is no field set, or it selects nothing at all, or it cannot be read. -/
inductive Sdl.Directive.SelectsNothing (x : Directive) : Prop
  | noText (h : ∀ text, x.argument? "fields" ≠ some (.string text))
  | noSelection {text : String} (h : x.argument? "fields" = some (.string text))
      (hnone : selectionsOf text = [])
  | unreadable {text : String} {fault : Fault} (h : x.argument? "fields" = some (.string text))
      (hread : readFieldSet text = .error fault)

/-- The field set can be read, and what it selects is no field. -/
def Sdl.Directive.SelectsOnlyFragments (x : Directive) : Prop :=
  ∃ text names, x.argument? "fields" = some (.string text) ∧ readFieldSet text = .ok names ∧
    ∀ selected ∈ selectionsOf text, selected.field? = none

theorem unusable_iff {x : Directive} :
    x.Unusable ↔ x.SelectsNothing ∨ x.SelectsOnlyFragments := by
  constructor
  · intro h
    cases h with
    | noText h => exact .inl (.noText h)
    | blank h hblank => exact .inl (.noSelection h (selectionsOf_of_allBlank hblank))
    | unreadable h hread => exact .inl (.unreadable h hread)
    | @fieldless text h hnone =>
      cases hread : readFieldSet text with
      | error fault => exact .inl (.unreadable h hread)
      | ok names => exact .inr ⟨text, names, h, hread, hnone⟩
  · rintro (h | ⟨text, names, h, -, hnone⟩)
    · cases h with
      | noText h => exact .noText h
      | noSelection h hnone => exact .fieldless h (by rw [hnone]; simp)
      | unreadable h hread => exact .unreadable h hread
    · exact .fieldless h hnone

/-- Fragments are selections. -/
theorem Sdl.Directive.SelectsOnlyFragments.not_selectsNothing {x : Directive}
    (h : x.SelectsOnlyFragments) : ¬ x.SelectsNothing := by
  obtain ⟨text, names, htext, hread, -⟩ := h
  intro hnothing
  cases hnothing with
  | noText hnone => exact hnone text htext
  | noSelection hother hnone =>
    obtain rfl := argument?_string_inj htext hother
    exact selectionsOf_ne_nil hread hnone
  | unreadable hother hfault =>
    obtain rfl := argument?_string_inj htext hother
    rw [hread] at hfault
    cases hfault

/-- How a field set without fields is reported. -/
def emptyFieldSetMessage (typeName field : String) (x : Directive) : String :=
  "@" ++ x.name ++ " on " ++ tickedMember typeName field ++ " has an empty field set."

theorem fieldSetErrors_of_onlyFragments {typeName field : String} {x : Directive}
    (h : x.SelectsOnlyFragments) :
    fieldSetErrors typeName field x = [emptyFieldSetMessage typeName field x] := by
  obtain ⟨text, names, htext, hread, hnone⟩ := h
  have hok : selectedFields text = .ok [] := by
    rcases selectedFields_cases text with ⟨fault, hfault, -⟩ | hok
    · rw [hread] at hfault
      cases hfault
    · rw [hok, selectedNames_eq_nil_iff.mpr hnone]
  unfold fieldSetErrors
  simp only [stringArgument?_eq_some_iff.mpr htext, hok]
  rfl

theorem fieldSetErrors_ne_nil_iff {typeName field : String} {x : Directive} :
    fieldSetErrors typeName field x ≠ [] ↔ x.Unusable := by
  rw [ne_eq, fieldSetErrors_eq_nil_iff, ← not_unusable_iff, not_not]

theorem Application.CarriesFieldSet.messages_of_onlyFragments {a : Application}
    (h : a.CarriesFieldSet) (hfragments : a.directive.SelectsOnlyFragments)
    (ds : List Definition) :
    ∃ field, a.field? = some field ∧
      a.messages ds = [emptyFieldSetMessage a.owner field a.directive] := by
  obtain ⟨field, hfield, hmessages⟩ := h.messages_eq ds
  exact ⟨field, hfield, hmessages.trans (fieldSetErrors_of_onlyFragments hfragments)⟩

/-- A directive with a field set is reported if the field set selects nothing or cannot be
read. It is reported as empty, too, if it selects fragments and no field. -/
theorem fieldSets_reported_iff {text : String} (h : (read text).faults = []) :
    compositionErrors text =
        (applications (read text).definitions).flatMap (·.errors text (read text).definitions) ∧
      ∀ a ∈ applications (read text).definitions, a.CarriesFieldSet →
        (¬ a.directive.SelectsOnlyFragments →
          (a.messages (read text).definitions ≠ [] ↔ a.directive.SelectsNothing)) ∧
        (a.directive.SelectsOnlyFragments → ¬ a.directive.SelectsNothing ∧
          ∃ field, a.field? = some field ∧ a.messages (read text).definitions =
            [emptyFieldSetMessage a.owner field a.directive]) := by
  refine ⟨compositionErrors_eq h, fun a _ hset => ?_⟩
  constructor
  · intro hfragments
    obtain ⟨field, -, hmessages⟩ := hset.messages_eq (read text).definitions
    rw [hmessages, fieldSetErrors_ne_nil_iff, unusable_iff]
    exact or_iff_left hfragments
  · intro hfragments
    exact ⟨hfragments.not_selectsNothing, hset.messages_of_onlyFragments hfragments _⟩

/-- A field set with a fragment and a field, and a blank one. -/
def mixedSets : String :=
  "type P \x7b\n" ++
  "  w: Int @requires(fields: \"... on P \x7b id \x7d no: id\")\n" ++
  "  v: Int @provides(fields: \" \")\n\x7d"

theorem fieldSets_reported_iff_mixedSets :
    (read mixedSets).faults = [] ∧
      ∃ a b : Application, applications (read mixedSets).definitions = [a, b] ∧
        a.messages (read mixedSets).definitions = [] ∧
        b.messages (read mixedSets).definitions ≠ [] := by
  obtain ⟨hfaults, happlications⟩ : (lexicalFaults (lexemes mixedSets) = [] ∧
      (Parser.document (.start (tokens mixedSets))).2.faults = []) ∧
      applications (read mixedSets).definitions =
        [⟨"P", some "w", ⟨"requires",
            [⟨"fields", .string "... on P \x7b id \x7d no: id"⟩], 18⟩⟩,
          ⟨"P", some "v", ⟨"provides", [⟨"fields", .string " "⟩], 71⟩⟩] := by decide +kernel
  have hreadable : (read mixedSets).faults = [] := (read_faults_eq_nil_iff mixedSets).mpr hfaults
  obtain ⟨-, hjudged⟩ := fieldSets_reported_iff hreadable
  rw [happlications, List.forall_mem_cons, List.forall_mem_singleton] at hjudged
  obtain ⟨hmixed, hblank⟩ := hjudged
  have hselects : Directive.Selects
      ⟨"requires", [⟨"fields", .string "... on P \x7b id \x7d no: id"⟩], 18⟩ ["id"] :=
    ⟨_, rfl, ⟨'n', by decide, by decide⟩, readFieldSet_eq_ok_iff.mpr (by decide +kernel),
      by decide⟩
  have husable := not_unusable_iff.mpr ⟨_, hselects⟩
  rw [unusable_iff, not_or] at husable
  refine ⟨hreadable, _, _, happlications, ?_, ?_⟩
  · by_contra hreported
    exact husable.1 (((hmixed ⟨by decide, by decide⟩).1 husable.2).mp hreported)
  · have hnothing := Directive.SelectsNothing.noSelection
      (x := ⟨"provides", [⟨"fields", .string " "⟩], 71⟩) rfl (selectionsOf_of_allBlank (by decide))
    have hfragments := mt Directive.SelectsOnlyFragments.not_selectsNothing (not_not.mpr hnothing)
    exact ((hblank ⟨by decide, by decide⟩).1 hfragments).mpr hnothing

/-- A field set that is one fragment with a field in it. -/
def fragmentSet : String :=
  "type P \x7b\n  id: ID\n  w: Int @requires(fields: \"... on P \x7b id \x7d\")\n\x7d"

/-- The one application in it. -/
def fragmentSetOnly : Application :=
  ⟨"P", some "w", ⟨"requires", [⟨"fields", .string "... on P \x7b id \x7d"⟩], 27⟩⟩

theorem compositionErrors_fragmentSet :
    readFieldSet "... on P \x7b id \x7d" = .ok [] ∧
      selectionsOf "... on P \x7b id \x7d" = [.inline] ∧
      compositionErrors fragmentSet = [⟨3, "@requires on 'P.w' has an empty field set."⟩] := by
  have hread : readFieldSet "... on P \x7b id \x7d" = .ok [] :=
    readFieldSet_eq_ok_iff.mpr (by decide +kernel)
  have hinline : selectionsOf "... on P \x7b id \x7d" = [.inline] := by decide +kernel
  obtain ⟨hfaults, happlications⟩ : (lexicalFaults (lexemes fragmentSet) = [] ∧
      (Parser.document (.start (tokens fragmentSet))).2.faults = []) ∧
      applications (read fragmentSet).definitions = [fragmentSetOnly] := by decide +kernel
  have hreadable : (read fragmentSet).faults = [] :=
    (read_faults_eq_nil_iff fragmentSet).mpr hfaults
  have hfragments : fragmentSetOnly.directive.SelectsOnlyFragments :=
    ⟨_, _, rfl, hread, by rw [hinline]; decide⟩
  have hset : fragmentSetOnly.CarriesFieldSet := ⟨by decide, .inl rfl⟩
  obtain ⟨field, hfield, hmessages⟩ := hset.messages_of_onlyFragments hfragments _
  cases hfield
  refine ⟨hread, hinline, ?_⟩
  rw [compositionErrors_eq hreadable, happlications, List.flatMap_singleton, Application.errors,
    hmessages]
  decide +kernel

end SchemaLint
