import SchemaLint.Proofs.Sdl.Path

/-!
# Every production walks a path

One lemma for each production says that it walks a path and that the marks in its
result were kept on the way, in the order in which the result shows them. The
productions are built from a few primitives by sequence and choice, so each
lemma is put together from those of the parts.
-/

namespace SchemaLint.Sdl

-- A production with a choice in it is one large instance problem.
set_option synthInstance.maxSize 4096

def Name.marks (n : Name) : List Mark := [.name n]

def Directive.marks (d : Directive) : List Mark := [.directive d.offset]

def InputValue.marks (v : InputValue) : List Mark :=
  v.name.marks ++ v.directives.flatMap Directive.marks

def Field.marks (f : Field) : List Mark :=
  f.name.marks ++ f.arguments.flatMap InputValue.marks ++ f.directives.flatMap Directive.marks

def EnumValue.marks (v : EnumValue) : List Mark :=
  v.name.marks ++ v.directives.flatMap Directive.marks

def Body.marks : Body → List Mark
  | .object fs => fs.flatMap Field.marks
  | .interface fs => fs.flatMap Field.marks
  | .input vs => vs.flatMap InputValue.marks
  | .enum vs => vs.flatMap EnumValue.marks
  | .union _ => []
  | .scalar => []

/-- The names and directives of a definition in the order of the text. -/
def Definition.marks (d : Definition) : List Mark :=
  d.name.marks ++ d.directives.flatMap Directive.marks ++ d.body.marks

namespace Parser

/-- Marks of what stands behind the name of a definition. -/
def Parts.marks (parts : Parts) : List Mark :=
  parts.directives.flatMap Directive.marks ++ parts.body.marks

/-- Behind a path that kept `before`, the production goes on to one that keeps the
marks of its result. -/
def Walks {α : Type} (before : List Mark) (p : Parser α) (m : α → List Mark) : Prop :=
  ∀ s₀ s : State, Path s₀ before s → Path s₀ (m (p s).1) (p s).2

/-- The production walks a path too, but nothing is said about marks. Sequences and
choices of silent productions are found to be silent by instances. -/
class Silent {α : Type} (p : Parser α) : Prop where
  path : ∀ s : State, Path s [] (p s).2

variable {α β : Type} {before after : List Mark} {m : α → List Mark}

namespace Walks

theorem bind {p : Parser α} {f : α → Parser β} {n' : β → List Mark}
    (hp : Walks before p m) (hf : ∀ a, Walks (m a) (f a) n') :
    Walks before (p >>= f) n' :=
  fun s₀ s h => hf (p s).1 s₀ (p s).2 (hp s₀ s h)

theorem pure {a : α} (h : (m a).Sublist before) :
    Walks before (Pure.pure a : Parser α) m :=
  fun _ _ hpath => hpath.forget h

theorem ite {c : Prop} [Decidable c] {p q : Parser α} (hp : Walks before p m)
    (hq : Walks before q m) : Walks before (if c then p else q) m := by
  split
  · exact hp
  · exact hq

/-- A production put behind a path. -/
theorem behind {p : Parser α} (h : Walks [] p m) (before : List Mark) :
    Walks before p fun a => before ++ m a :=
  fun _ s hpath => hpath.trans (h s s (.nil s))

end Walks

namespace Silent

theorem walks {p : Parser α} (h : Silent p) (before : List Mark) :
    Walks before p fun _ => before := by
  intro s₀ s hpath
  have hs := hpath.trans (h.path s)
  rwa [List.append_nil] at hs

theorem of_walks {p : Parser α} (h : Walks [] p m) : Silent p :=
  ⟨fun s => (h s s (.nil s)).forget (List.nil_sublist _)⟩

instance bind {p : Parser α} {f : α → Parser β} [hp : Silent p] [hf : ∀ a, Silent (f a)] :
    Silent (p >>= f) :=
  ⟨fun s => (hp.path s).trans ((hf (p s).1).path (p s).2)⟩

instance pure (a : α) : Silent (Pure.pure a : Parser α) := ⟨fun s => .nil s⟩

instance ite {c : Prop} [Decidable c] {p q : Parser α} [hp : Silent p] [hq : Silent q] :
    Silent (if c then p else q) := by
  split
  · exact hp
  · exact hq

theorem seq {p : Parser α} {f : α → Parser β} (hp : Silent p) (hf : ∀ a, Silent (f a)) :
    Silent (p >>= f) := bind

/-- A step in front that keeps nothing changes nothing. -/
theorem then_walks {p : Parser α} {f : α → Parser β} {m : β → List Mark} (hp : Silent p)
    (hf : ∀ a, Walks before (f a) m) : Walks before (p >>= f) m :=
  (hp.walks before).bind hf

end Silent

/-! ## Primitives -/

instance silent_current? : Silent current? := ⟨fun s => .nil s⟩

instance silent_second? : Silent second? := by
  refine ⟨?_⟩
  rintro ⟨ahead, faults, muted, dropped⟩
  rcases ahead with _ | ⟨_, _ | _⟩ <;> exact .nil _

instance silent_isAt (kind : TokenKind) : Silent (isAt kind) := ⟨fun s => .nil s⟩

instance silent_isAtWord (word : String) : Silent (isAtWord word) := ⟨fun s => .nil s⟩

instance silent_advance : Silent advance := ⟨fun s => .single (.pass s)⟩

instance silent_position : Silent position := ⟨fun s => .nil s⟩

instance silent_noteAt (offset : Nat) (fault : GrammarFault) : Silent (noteAt offset fault) := by
  refine ⟨fun s => ?_⟩
  show Path s [] (if s.muted then s else { s with faults := _ })
  split
  · exact .nil s
  · next h => exact .single (.note (Bool.not_eq_true _ ▸ h) _)

instance silent_note (fault : GrammarFault) : Silent (note fault) := by
  refine silent_current?.seq fun t => ?_
  cases t with
  | none => exact .pure ()
  | some t => exact silent_noteAt t.offset fault

instance silent_noteAndAdvance (fault : GrammarFault) : Silent (noteAndAdvance fault) := .bind

instance silent_exhausted : Silent exhausted := by
  refine ⟨?_⟩
  rintro ⟨ahead, faults, muted, dropped⟩
  cases ahead with
  | nil => exact .nil _
  | cons t rest =>
    cases muted with
    | false => exact (Path.single (.note rfl _)).trans (.single (.mute (List.cons_ne_nil _ _)))
    | true => exact .nil _

instance silent_expect (closer : Closer) : Silent (expect closer) := by
  refine silent_current?.seq fun t => ?_
  cases t with
  | none => exact .pure ()
  | some t => exact .ite

instance silent_skip (kind : TokenKind) : Silent (skip kind) := .bind

instance silent_skipWord (word : String) : Silent (skipWord word) := .bind

theorem walks_atMost {step : Parser (Option α)}
    (h : Walks [] step fun o => o.elim [] m) (turns : Nat) :
    Walks [] (atMost step turns) (List.flatMap m) := by
  induction turns with
  | zero => exact .pure (List.nil_sublist _)
  | succ turns ih =>
    refine h.bind fun o => ?_
    cases o with
    | none => exact .pure (List.nil_sublist _)
    | some a =>
      refine (ih.behind _).bind fun as => .pure ?_
      simp

theorem walks_many {step : Parser (Option α)}
    (h : Walks [] step fun o => o.elim [] m) :
    Walks [] (many step) (List.flatMap m) :=
  fun s₀ s hpath => walks_atMost h (s.ahead.length + 1) s₀ s hpath

instance silent_atMost {step : Parser (Option α)} [h : Silent step] (turns : Nat) :
    Silent (atMost step turns) := by
  refine .of_walks (m := List.flatMap fun _ => []) (walks_atMost (fun s₀ s hpath => ?_) turns)
  refine (hpath.trans (h.path s)).forget ?_
  cases (step s).1 <;> exact List.nil_sublist _

instance silent_many {step : Parser (Option α)} [h : Silent step] : Silent (many step) :=
  ⟨fun s => (silent_atMost (s.ahead.length + 1)).path s⟩

/-- The marks of what was kept, if anything was. -/
def keptMarks (m : α → List Mark) (o : Option α) : List Mark := o.elim [] m

@[simp] theorem keptMarks_none (m : α → List Mark) : keptMarks m none = [] := rfl

@[simp] theorem keptMarks_some (m : α → List Mark) (a : α) :
    keptMarks m (some a) = m a := rfl

theorem flatMap_filterMap_id (m : α → List Mark) (os : List (Option α)) :
    (os.filterMap id).flatMap m = os.flatMap (keptMarks m) := by
  induction os with
  | nil => rfl
  | cons o os ih =>
    cases o with
    | none =>
      have hdrop : (none :: os).filterMap id = os.filterMap id := List.filterMap_cons_none rfl
      rw [hdrop, List.flatMap_cons, keptMarks_none, List.nil_append, ih]
    | some a =>
      have hkeep : (some a :: os).filterMap id = a :: os.filterMap id :=
        List.filterMap_cons_some rfl
      rw [hkeep, List.flatMap_cons, List.flatMap_cons, keptMarks_some, ih]

theorem walks_members {item : Parser (Option α)} (h : Walks [] item (keptMarks m)) :
    Walks [] (members item) (List.flatMap m) := by
  refine Walks.bind (walks_many (m := keptMarks m) ?_) fun os => ?_
  · refine (silent_isAt _).then_walks fun _ => (silent_isAt _).then_walks fun _ => ?_
    exact .ite (h.bind fun o => .pure (.refl _)) (.pure (.refl _))
  · exact .pure (flatMap_filterMap_id m os ▸ .refl _)

theorem run_nameOr (missing : GrammarFault) (t : Token) (rest : List Token)
    (faults : List LocatedFault) (muted : Bool) (dropped : Nat) :
    nameOr missing ⟨t :: rest, faults, muted, dropped⟩ =
      if t.kind = .name then
        (some ⟨t.text, t.offset - dropped⟩, ⟨rest, faults, muted, dropped⟩)
      else (none, (note missing ⟨t :: rest, faults, muted, dropped⟩).2) := by
  show (if t.kind = .name then _ else _ : Parser (Option Name)) _ = _
  split <;> rfl

theorem walks_nameOr (missing : GrammarFault) :
    Walks [] (nameOr missing) (keptMarks Name.marks) := by
  rintro s₀ ⟨ahead, faults, muted, dropped⟩ hpath
  cases ahead with
  | nil => exact hpath
  | cons t rest =>
    rw [run_nameOr]
    split
    · next hk => exact hpath.trans (.single (.keep rfl (by simp [Token.mark?, hk])))
    · exact hpath.trans ((silent_note missing).path _)

theorem walks_name : Walks [] name (keptMarks Name.marks) := walks_nameOr .noName

instance silent_nameOr (missing : GrammarFault) : Silent (nameOr missing) :=
  .of_walks (walks_nameOr missing)

instance silent_name : Silent name := silent_nameOr .noName

instance silent_description? : Silent description? := by
  refine silent_current?.seq fun t => ?_
  cases t with
  | none => exact .pure none
  | some t => exact .ite

/-! ## Values and directives -/

instance silent_complain (pass : Bool) (fault : GrammarFault) : Silent (complain pass fault) :=
  .ite

section Values

variable {inner : Option (Parser (Option Value))} (h : ∀ p ∈ inner, Silent p)
include h

theorem silent_listItems : Silent (listItems inner) := by
  refine silent_many (h := silent_current?.seq fun t => ?_)
  cases t with
  | none => exact .pure none
  | some t =>
    cases inner with
    | none => exact .ite
    | some p =>
      have := h p rfl
      exact .ite

theorem silent_objectFields : Silent (objectFields inner) := by
  cases inner with
  | none => exact silent_many
  | some p =>
    have := h p rfl
    exact silent_many

theorem silent_valueWith (constant pass : Bool) : Silent (valueWith constant inner pass) := by
  have := silent_listItems h
  have := silent_objectFields h
  refine silent_current?.seq fun t => ?_
  cases t with
  | none => exact .pure none
  | some t =>
    dsimp only
    split <;> infer_instance

end Values

instance silent_value (constant : Bool) (levels : Nat) (pass : Bool) :
    Silent (value constant levels pass) := by
  induction levels generalizing pass with
  | zero => exact silent_valueWith (by simp) constant pass
  | succ levels ih =>
    refine silent_valueWith (fun p hp => ?_) constant pass
    obtain rfl := Option.some.inj hp
    exact ih true

instance silent_argument (constant : Bool) (levels : Nat) : Silent (argument constant levels) :=
  .bind

instance silent_arguments (constant : Bool) (levels : Nat) :
    Silent (arguments constant levels) := by
  unfold arguments
  dsimp only
  infer_instance

theorem run_guarded (kind : TokenKind) (item : Parser α) (t : Token) (rest : List Token)
    (faults : List LocatedFault) (muted : Bool) (dropped : Nat) :
    (do if ← isAt kind then return some (← item) else return none : Parser (Option α))
        ⟨t :: rest, faults, muted, dropped⟩ =
      if t.kind = kind then (item ⟨t :: rest, faults, muted, dropped⟩).map some id
      else (none, ⟨t :: rest, faults, muted, dropped⟩) := by
  show (if (t.kind == kind) = true then _ else _ : Parser (Option α)) _ = _
  by_cases hk : t.kind = kind
  · rw [if_pos hk, if_pos (beq_iff_eq.mpr hk)]
    rfl
  · rw [if_neg hk, if_neg (mt beq_iff_eq.mp hk)]
    rfl

/-- An item that is only taken at a token of some kind can rely on it. -/
theorem walks_guarded {kind : TokenKind} {item : Parser α}
    (h : ∀ (s : State) (t : Token) (rest : List Token), s.ahead = t :: rest → t.kind = kind →
      Path s (m (item s).1) (item s).2) :
    Walks [] (do if ← isAt kind then return some (← item) else return none)
      (keptMarks m) := by
  rintro s₀ ⟨ahead, faults, muted, dropped⟩ hpath
  cases ahead with
  | nil => exact hpath
  | cons t rest =>
    rw [run_guarded]
    split
    · next hk => exact hpath.trans (h _ t rest rfl hk)
    · exact hpath

theorem path_directive (constant : Bool) (levels : Nat) {s : State} {t : Token}
    {rest : List Token} (hs : s.ahead = t :: rest) (hk : t.kind = .atSign) :
    Path s (keptMarks Directive.marks (directive constant levels s).1)
      (directive constant levels s).2 := by
  obtain ⟨ahead, faults, muted, dropped⟩ := s
  obtain rfl : ahead = t :: rest := hs
  have hkeep : Path ⟨t :: rest, faults, muted, dropped⟩ [.directive (t.offset - dropped)]
      ⟨rest, faults, muted, dropped⟩ :=
    .single (.keep rfl (by simp [Token.mark?, hk]))
  have hbehind : ∀ offset, Walks [.directive offset] (do
      let n ← name
      let args ← if ← isAt .parenL then arguments constant levels else pure []
      return n.map fun n => (⟨n.text, args, offset⟩ : Directive))
      (keptMarks Directive.marks) := by
    intro offset
    refine silent_name.then_walks fun n => (silent_isAt _).then_walks fun _ => ?_
    have hend : ∀ args, Walks [.directive offset]
        (pure (n.map fun n => (⟨n.text, args, offset⟩ : Directive)) : Parser _)
        (keptMarks Directive.marks) := by
      intro args
      refine .pure ?_
      cases n <;> simp [Directive.marks]
    exact .ite ((silent_arguments constant levels).then_walks hend) (hend [])
  exact hbehind (t.offset - dropped) _ _ hkeep

theorem walks_directives (constant : Bool) (levels : Nat) :
    Walks [] (directives constant levels) (List.flatMap Directive.marks) := by
  refine Walks.bind (walks_many (m := keptMarks Directive.marks) ?_) fun os => ?_
  · exact walks_guarded fun s t rest => path_directive constant levels
  · exact .pure (flatMap_filterMap_id _ os ▸ .refl _)

theorem walks_constantDirectives :
    Walks [] constantDirectives (List.flatMap Directive.marks) :=
  walks_directives true levelLimit

instance silent_directives (constant : Bool) (levels : Nat) :
    Silent (directives constant levels) :=
  .of_walks (walks_directives constant levels)

instance silent_constantDirectives : Silent constantDirectives := silent_directives true levelLimit

instance silent_defaultValue (constant : Bool) : Silent (defaultValue constant) := .bind

/-! ## Types -/

/-- The bracket that is wanted behind a dropped token. -/
theorem silent_closeItemType (next : Token) : Silent (match next.trivia with
    | [] => expect .bracket
    | ignored :: _ => noteAt ignored.offset (.unclosed .bracket ignored.text)) := by
  split <;> infer_instance

/-- Dropping a token is safe because a fault is noted along with it. -/
instance silent_dropItemType : Silent dropItemType := by
  refine ⟨?_⟩
  rintro ⟨ahead, faults, muted, dropped⟩
  cases ahead with
  | nil => exact .nil _
  | cons t rest =>
    have hdrop : Path ⟨t :: rest, faults, muted, dropped⟩ []
        (noteAt t.offset .noItemType ⟨rest, faults, muted, dropped + t.text.utf8ByteSize⟩).2 := by
      cases muted with
      | false =>
        exact (Path.single (.note rfl _)).trans
          (.single (.drop rfl (Or.inl (List.cons_ne_nil _ _))))
      | true => exact .single (.drop rfl (Or.inr rfl))
    cases rest with
    | nil => exact hdrop
    | cons next rest => exact hdrop.trans ((silent_closeItemType next).path _)

instance silent_itemType {item : Parser (Option TypeRef)} [Silent item] :
    Silent (itemType item) := .bind

instance silent_bang (type : Option TypeRef) : Silent (bang type) := .bind

instance silent_typeRefIn (levels : Nat) : Silent (typeRefIn levels) := by
  induction levels with
  | zero => exact .bind
  | succ levels ih => exact .bind

instance silent_typeRef : Silent typeRef := silent_typeRefIn levelLimit

instance silent_isAtType : Silent isAtType := .bind

/-! ## Members -/

/-- A branch that only notes a fault keeps nothing of what was read before. -/
theorem walks_note_none (fault : GrammarFault) {m : α → List Mark} :
    Walks before (do note fault; return none : Parser (Option α)) (keptMarks m) :=
  (silent_note fault).then_walks fun _ => .pure (List.nil_sublist _)

theorem walks_inputValue : Walks [] inputValue (keptMarks InputValue.marks) := by
  refine silent_description?.then_walks fun _ => walks_name.bind fun n => ?_
  refine (silent_skip _).then_walks fun _ => .ite ?_ (walks_note_none _)
  refine silent_isAtType.then_walks fun _ => .ite ?_ (walks_note_none _)
  refine silent_typeRef.then_walks fun type => (silent_defaultValue _).then_walks fun usable => ?_
  refine (walks_constantDirectives.behind _).bind fun ds => .pure ?_
  cases n <;> cases type <;> cases usable <;> simp [InputValue.marks]

theorem walks_enclosed {item : Parser (Option α)} (missing : GrammarFault) (closer : Closer)
    (h : Walks [] item (keptMarks m)) :
    Walks [] (enclosed missing closer item) (List.flatMap m) := by
  have hrest : Walks [] (do
      let items ← members item
      expect closer
      return items) (List.flatMap m) :=
    (walks_members h).bind fun _ => (silent_expect closer).then_walks fun _ => .pure (.refl _)
  refine silent_advance.then_walks fun _ => (silent_isAt _).then_walks fun _ =>
    (silent_isAt _).then_walks fun _ => ?_
  exact .ite ((silent_note missing).then_walks fun _ => hrest) hrest

theorem walks_argumentDefinitions :
    Walks [] argumentDefinitions (List.flatMap InputValue.marks) :=
  walks_enclosed _ _ walks_inputValue

theorem walks_inputFields : Walks [] inputFields (List.flatMap InputValue.marks) :=
  walks_enclosed _ _ walks_inputValue

theorem walks_field : Walks [] field (keptMarks Field.marks) := by
  have hrest : ∀ (description : Option String) (n : Option Name) (arguments : List InputValue),
      Walks (keptMarks Name.marks n ++ arguments.flatMap InputValue.marks) (do
        if ← skip .colon then
          if ← isAtType then
            let type ← typeRef
            let directives ← constantDirectives
            return do
              let n ← n
              let type ← type
              return (⟨description, n, arguments, type, directives⟩ : Field)
          else
            note .noTypeHere
            return none
        else
          note .noFieldType
          return none) (keptMarks Field.marks) := by
    intro description n arguments
    refine (silent_skip _).then_walks fun _ => .ite ?_ (walks_note_none _)
    refine silent_isAtType.then_walks fun _ => .ite ?_ (walks_note_none _)
    refine silent_typeRef.then_walks fun type => ?_
    refine (walks_constantDirectives.behind _).bind fun ds => .pure ?_
    cases n <;> cases type <;> simp [Field.marks]
  refine silent_description?.then_walks fun d => walks_name.bind fun n => ?_
  refine (silent_isAt _).then_walks fun _ => .ite ?_ ?_
  · exact (walks_argumentDefinitions.behind _).bind fun args => hrest d n args
  · refine Walks.bind (.pure ?_) fun args => hrest d n args
    simp

theorem walks_fields : Walks [] fields (List.flatMap Field.marks) :=
  walks_enclosed _ _ walks_field

theorem walks_enumValueName : Walks [] enumValueName (keptMarks Name.marks) := by
  refine silent_current?.then_walks fun t => ?_
  cases t with
  | none => exact .pure (List.nil_sublist _)
  | some t =>
    refine .ite (.ite ?_ walks_name) (walks_note_none _)
    exact (silent_note _).then_walks fun _ => walks_name

theorem walks_enumValue : Walks [] enumValue (keptMarks EnumValue.marks) := by
  refine silent_description?.then_walks fun _ => walks_enumValueName.bind fun n => ?_
  refine (walks_constantDirectives.behind _).bind fun ds => .pure ?_
  cases n <;> simp [EnumValue.marks]

theorem walks_enumValues : Walks [] enumValues (List.flatMap EnumValue.marks) :=
  walks_enclosed _ _ walks_enumValue

instance silent_namedType (missing : GrammarFault) : Silent (namedType missing) := .bind

instance silent_separated {item : Parser (Option α)} (separator : TokenKind) [Silent item] :
    Silent (separated separator item) := .bind

instance silent_implements : Silent implements := .bind

instance silent_unionMembers : Silent unionMembers := .bind

/-! ## Selections -/

instance silent_fragmentName : Silent fragmentName := by
  refine silent_current?.seq fun t => ?_
  cases t with
  | none => exact .pure ()
  | some t => exact .ite

instance silent_typeCondition : Silent typeCondition := by
  unfold typeCondition
  dsimp only
  infer_instance

section Selections

variable {nested : Parser (List String)} [Silent nested] (levels : Nat)

instance silent_fragment : Silent (fragment nested levels) := by
  unfold fragment
  dsimp only
  infer_instance

instance silent_selectedField : Silent (selectedField nested levels) := by
  unfold selectedField
  dsimp only
  infer_instance

instance silent_selections : Silent (selections nested levels) := by
  unfold selections
  dsimp only
  infer_instance

end Selections

instance silent_selectionSet (levels : Nat) : Silent (selectionSet levels) := by
  induction levels with
  | zero => exact .bind
  | succ levels ih => exact .bind

/-! ## Definitions -/

instance silent_optionalImplements : Silent optionalImplements := .bind

theorem walks_optional {part : Parser (List α)} (opener : TokenKind)
    (h : Walks [] part (List.flatMap m)) :
    Walks [] (optional opener part) fun r => r.2.flatMap m :=
  (silent_isAt _).then_walks fun _ => .ite (h.bind fun _ => .pure (.refl _)) (.pure (.refl _))

theorem walks_optionalDirectives : Walks [] (optional .atSign constantDirectives)
    fun r => r.2.flatMap Directive.marks :=
  walks_optional _ walks_constantDirectives

/-- Directives and then members, whatever the kind of type they make up. -/
theorem walks_parts {members : Parser (List α)} (opener : TokenKind)
    (h : Walks [] members (List.flatMap m))
    (parts : Bool → Bool → List Directive → List α → Parts)
    (hparts : ∀ d f ds xs, (parts d f ds xs).marks = ds.flatMap Directive.marks ++ xs.flatMap m) :
    Walks [] (do
      let (d, ds) ← optional .atSign constantDirectives
      let (f, xs) ← optional opener members
      return parts d f ds xs) Parts.marks := by
  refine walks_optionalDirectives.bind fun ⟨d, ds⟩ => ?_
  refine ((walks_optional opener h).behind _).bind fun ⟨f, xs⟩ => ?_
  exact .pure (hparts d f ds xs ▸ .refl _)

theorem walks_objectParts {body : List Field → Body}
    (h : ∀ fs, (body fs).marks = fs.flatMap Field.marks) :
    Walks [] (objectParts body) Parts.marks := by
  refine silent_optionalImplements.then_walks fun i => ?_
  exact walks_parts .braceL walks_fields (fun d f ds fs => ⟨ds, body fs, i || d || f⟩)
    fun _ _ ds fs => congrArg (ds.flatMap Directive.marks ++ ·) (h fs)

theorem walks_unionParts : Walks [] unionParts Parts.marks := by
  refine walks_optionalDirectives.bind fun ⟨d, ds⟩ => ?_
  have hmembers : Silent (optional .equals unionMembers) := .bind
  refine hmembers.then_walks fun ⟨m, ms⟩ => .pure ?_
  simp [Parts.marks, Body.marks]

theorem walks_scalarParts : Walks [] scalarParts Parts.marks := by
  refine walks_optionalDirectives.bind fun ⟨d, ds⟩ => .pure ?_
  simp [Parts.marks, Body.marks]

theorem walks_typeParts (kind : TypeKind) : Walks [] (typeParts kind) Parts.marks := by
  cases kind with
  | object => exact walks_objectParts fun _ => rfl
  | interface => exact walks_objectParts fun _ => rfl
  | input =>
    exact walks_parts .braceL walks_inputFields (fun d f ds fs => ⟨ds, .input fs, d || f⟩)
      fun _ _ _ _ => rfl
  | enum =>
    exact walks_parts .braceL walks_enumValues (fun d v ds vs => ⟨ds, .enum vs, d || v⟩)
      fun _ _ _ _ => rfl
  | union => exact walks_unionParts
  | scalar => exact walks_scalarParts

theorem walks_typeDefinition (kind : TypeKind) :
    Walks [] (typeDefinition kind) (keptMarks Definition.marks) := by
  refine silent_position.then_walks fun _ => silent_description?.then_walks fun _ => ?_
  refine (silent_skipWord _).then_walks fun _ => (walks_nameOr _).bind fun n => ?_
  refine ((walks_typeParts kind).behind _).bind fun parts => .pure ?_
  cases n <;> simp [Definition.marks, Parts.marks]

theorem walks_typeExtension (kind : TypeKind) :
    Walks [] (typeExtension kind) (keptMarks Definition.marks) := by
  refine silent_position.then_walks fun offset => silent_advance.then_walks fun _ => ?_
  refine silent_advance.then_walks fun _ => walks_name.bind fun n => ?_
  refine ((walks_typeParts kind).behind _).bind fun parts => ?_
  have hend : Walks (keptMarks Name.marks n ++ parts.marks)
      (pure (n.map fun n => ⟨true, none, n, parts.directives, parts.body, offset⟩) :
        Parser (Option Definition)) (keptMarks Definition.marks) := by
    refine .pure ?_
    cases n <;> simp [Definition.marks, Parts.marks]
  exact .ite ((silent_note _).then_walks fun _ => hend) hend

instance silent_operationType : Silent operationType := .bind

instance silent_rootOperation : Silent rootOperation := .bind

instance silent_rootOperations : Silent rootOperations := .bind

instance silent_schemaDefinition : Silent schemaDefinition := by
  unfold schemaDefinition
  dsimp only
  infer_instance

instance silent_optionalDirectives : Silent (optional .atSign constantDirectives) := .bind

instance silent_schemaExtension : Silent schemaExtension := by
  unfold schemaExtension
  dsimp only
  infer_instance

instance silent_directiveLocation : Silent directiveLocation := by
  refine silent_current?.seq fun t => ?_
  cases t with
  | none => exact .pure none
  | some t =>
    dsimp only
    infer_instance

instance silent_argumentDefinitions : Silent argumentDefinitions :=
  .of_walks walks_argumentDefinitions

/-- Where a directive may stand. -/
instance silent_locations : Silent (do
    if (← isAt .name) || (← isAt .pipe) then
      let _ ← separated .pipe directiveLocation
    else note .invalidLocation) := .bind

/-- The end of the definition of a directive. -/
instance silent_repeatable : Silent (do
    skipWord "repeatable"
    if ← isAtWord "on" then advance else note .noLocations
    if (← isAt .name) || (← isAt .pipe) then
      let _ ← separated .pipe directiveLocation
    else note .invalidLocation) :=
  (silent_skipWord _).seq fun _ => (silent_isAtWord _).seq fun _ => .ite

/-- The definition of a directive behind its first word. -/
instance silent_directiveParts : Silent (do
    if !(← skip .atSign) then note .noAtSign
    let _ ← name
    if ← isAt .parenL then
      let _ ← argumentDefinitions
    skipWord "repeatable"
    if ← isAtWord "on" then advance else note .noLocations
    if (← isAt .name) || (← isAt .pipe) then
      let _ ← separated .pipe directiveLocation
    else note .invalidLocation) := by
  refine (silent_skip _).seq fun _ => ?_
  dsimp only
  infer_instance

instance silent_directiveDefinition : Silent directiveDefinition :=
  silent_description?.seq fun _ => (silent_skipWord _).seq fun _ => silent_directiveParts

instance silent_variableDefinition : Silent variableDefinition := .bind

instance silent_variableDefinitions : Silent variableDefinitions := by
  unfold variableDefinitions
  dsimp only
  infer_instance

instance silent_operation : Silent operation := by
  unfold operation
  dsimp only
  infer_instance

instance silent_fragmentDefinition : Silent fragmentDefinition := .bind

/-- A production whose result is thrown away. -/
theorem walks_ignored {p : Parser β} (h : Silent p) {m : α → List Mark} :
    Walks [] (do let _ ← p; return none : Parser (Option α)) (keptMarks m) :=
  h.then_walks fun _ => .pure (.refl _)

theorem walks_extension : Walks [] extension (keptMarks Definition.marks) := by
  refine silent_second?.then_walks fun t => ?_
  dsimp only
  split
  · exact walks_typeExtension _
  · exact .ite (walks_ignored silent_schemaExtension) (walks_ignored (silent_noteAndAdvance _))

theorem walks_definition (word : String) :
    Walks [] (definition word) (keptMarks Definition.marks) := by
  unfold definition
  split
  · exact walks_typeDefinition _
  · refine .ite walks_extension (.ite ?_ (.ite ?_ (.ite ?_ (.ite ?_ ?_))))
    · exact walks_ignored silent_directiveDefinition
    · exact walks_ignored silent_fragmentDefinition
    · exact walks_ignored silent_schemaDefinition
    · exact walks_ignored silent_operation
    · exact walks_ignored (silent_noteAndAdvance _)

theorem walks_nextDefinition :
    Walks [] nextDefinition (keptMarks (keptMarks Definition.marks)) := by
  refine silent_current?.then_walks fun t => ?_
  cases t with
  | none => exact .pure (.refl _)
  | some t =>
    have hword : ∀ word, Walks [] (do return some (← definition word))
        (keptMarks (keptMarks Definition.marks)) :=
      fun word => (walks_definition word).bind fun _ => .pure (.refl _)
    dsimp only
    split
    · exact .pure (.refl _)
    · exact silent_second?.then_walks fun _ => hword _
    · exact hword _
    · exact hword _
    · exact (silent_noteAndAdvance _).then_walks fun _ => .pure (.refl _)

theorem walks_document : Walks [] document (List.flatMap Definition.marks) := by
  have hrest : Walks [] (do
      let items ← many nextDefinition
      return items.filterMap id) (List.flatMap Definition.marks) :=
    (walks_many walks_nextDefinition).bind fun os =>
      .pure (flatMap_filterMap_id _ os ▸ .refl _)
  refine (silent_isAt _).then_walks fun _ => ?_
  exact .ite ((silent_note _).then_walks fun _ => hrest) hrest

end Parser

end SchemaLint.Sdl
