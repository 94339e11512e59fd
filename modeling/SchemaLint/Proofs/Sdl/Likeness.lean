import Mathlib.Data.List.Forall2
import SchemaLint.Proofs.Sdl.Walks

/-!
# Alike tokens are read alike

Productions decide by the kind of a token, by the text of a token that is no string
and by commas, and by nothing else. So two lists of tokens that agree in these are
read in step: as long as the first reading notes no fault the second notes none, and
the two results differ only in the positions and string values of the tokens they
came from. A `Likeness` says how these may differ.
-/

namespace SchemaLint.Sdl

set_option synthInstance.maxSize 4096

structure Likeness where
  /-- How the values of two strings are related. -/
  value : String → String → Prop
  /-- How two positions are related. -/
  offset : Nat → Nat → Prop

def startsQuoted (text : String) : Prop := text.toList.head? = some '"'

instance : DecidablePred startsQuoted := fun text =>
  inferInstanceAs (Decidable (text.toList.head? = some '"'))

namespace Likeness

variable (L : Likeness)

structure Tokens (t u : Token) : Prop where
  kind : t.kind = u.kind
  text : t.kind ≠ .string → t.text = u.text
  quoted : t.kind = .string → startsQuoted t.text ∧ startsQuoted u.text
  value : t.kind = .string → L.value (stringValue t.text) (stringValue u.text)
  comma : t.trivia.any (·.kind == .comma) = u.trivia.any (·.kind == .comma)
  offset : L.offset t.offset u.offset

structure Names (n o : Name) : Prop where
  text : n.text = o.text
  offset : L.offset n.offset o.offset

inductive Values : Value → Value → Prop
  | string {a b : String} (h : L.value a b) : Values (.string a) (.string b)
  | other : Values .other .other

structure Arguments (a b : Argument) : Prop where
  name : a.name = b.name
  value : L.Values a.value b.value

structure Directives (d e : Directive) : Prop where
  name : d.name = e.name
  arguments : List.Forall₂ L.Arguments d.arguments e.arguments
  offset : L.offset d.offset e.offset

structure InputValues (v w : InputValue) : Prop where
  description : Option.Rel L.value v.description w.description
  name : L.Names v.name w.name
  type : v.type = w.type
  directives : List.Forall₂ L.Directives v.directives w.directives

structure Fields (f g : Field) : Prop where
  description : Option.Rel L.value f.description g.description
  name : L.Names f.name g.name
  arguments : List.Forall₂ L.InputValues f.arguments g.arguments
  type : f.type = g.type
  directives : List.Forall₂ L.Directives f.directives g.directives

structure EnumValues (v w : EnumValue) : Prop where
  description : Option.Rel L.value v.description w.description
  name : L.Names v.name w.name
  directives : List.Forall₂ L.Directives v.directives w.directives

inductive Bodies : Body → Body → Prop
  | object {fs gs : List Field} (h : List.Forall₂ L.Fields fs gs) : Bodies (.object fs) (.object gs)
  | interface {fs gs : List Field} (h : List.Forall₂ L.Fields fs gs) :
      Bodies (.interface fs) (.interface gs)
  | input {vs ws : List InputValue} (h : List.Forall₂ L.InputValues vs ws) :
      Bodies (.input vs) (.input ws)
  | enum {vs ws : List EnumValue} (h : List.Forall₂ L.EnumValues vs ws) :
      Bodies (.enum vs) (.enum ws)
  | union (members : List String) : Bodies (.union members) (.union members)
  | scalar : Bodies .scalar .scalar

structure Definitions (d e : Definition) : Prop where
  isExtension : d.isExtension = e.isExtension
  description : Option.Rel L.value d.description e.description
  name : L.Names d.name e.name
  directives : List.Forall₂ L.Directives d.directives e.directives
  body : L.Bodies d.body e.body
  offset : L.offset d.offset e.offset

structure Parts (p q : Parser.Parts) : Prop where
  directives : List.Forall₂ L.Directives p.directives q.directives
  body : L.Bodies p.body q.body
  present : p.present = q.present

/-- Two readings in step, neither of which has noted a fault. -/
inductive Matched : State → State → Prop
  | intro {ts us : List Token} (h : List.Forall₂ L.Tokens ts us) :
      Matched (.start ts) (.start us)

end Likeness

namespace Parser

variable (L : Likeness) {α β γ δ : Type} {r : α → β → Prop} {q : γ → δ → Prop}

/-- From matched states both productions come to matched states with related
results, unless the first one notes a fault. -/
def Agrees (r : α → β → Prop) (p : Parser α) (p' : Parser β) : Prop :=
  ∀ s t : State, L.Matched s t → (p s).2.faults = [] →
    r (p s).1 (p' t).1 ∧ L.Matched (p s).2 (p' t).2

/-- Both readings have the same result. -/
abbrev Steady (p : Parser α) : Prop := Agrees L Eq p p

/-- The same for productions that note no fault. -/
def Keeps (r : α → β → Prop) (p : Parser α) (p' : Parser β) : Prop :=
  ∀ s t : State, L.Matched s t → r (p s).1 (p' t).1 ∧ L.Matched (p s).2 (p' t).2

variable {L}

theorem Keeps.agrees {p : Parser α} {p' : Parser β} (h : Keeps L r p p') : Agrees L r p p' :=
  fun s t hst _ => h s t hst

theorem Keeps.bind {p : Parser α} {p' : Parser β} {f : α → Parser γ} {f' : β → Parser δ}
    (hp : Keeps L r p p') (hf : ∀ a b, r a b → Agrees L q (f a) (f' b)) :
    Agrees L q (p >>= f) (p' >>= f') := by
  intro s t hst hfaults
  obtain ⟨hr, hmatched⟩ := hp s t hst
  exact hf _ _ hr _ _ hmatched hfaults

/-- The common case that both have the same result. -/
theorem Keeps.bind_eq {p p' : Parser α} {f : α → Parser γ} {f' : α → Parser δ}
    (hp : Keeps L Eq p p') (hf : ∀ a, Agrees L q (f a) (f' a)) :
    Agrees L q (p >>= f) (p' >>= f') :=
  hp.bind fun a _ h => h ▸ hf a

namespace Agrees

/-- What comes behind has to be silent, so that a fault of the first part is still
there at the end. -/
theorem bind {p : Parser α} {p' : Parser β} {f : α → Parser γ} {f' : β → Parser δ}
    (hp : Agrees L r p p') [hs : ∀ a, Silent (f a)]
    (hf : ∀ a b, r a b → Agrees L q (f a) (f' b)) : Agrees L q (p >>= f) (p' >>= f') := by
  intro s t hst hfaults
  have hfirst := ((hs (p s).1).path (p s).2).faults_eq_nil hfaults
  obtain ⟨hr, hmatched⟩ := hp s t hst hfirst
  exact hf _ _ hr _ _ hmatched hfaults

/-- For what comes behind a choice, which is found silent case by case. -/
theorem bind_of_silent {p : Parser α} {p' : Parser β} {f : α → Parser γ} {f' : β → Parser δ}
    (hp : Agrees L r p p') (hs : ∀ a, Silent (f a))
    (hf : ∀ a b, r a b → Agrees L q (f a) (f' b)) : Agrees L q (p >>= f) (p' >>= f') :=
  hp.bind hf

theorem bind_eq {p p' : Parser α} {f : α → Parser γ} {f' : α → Parser δ} (hp : Agrees L Eq p p')
    [hs : ∀ a, Silent (f a)] (hf : ∀ a, Agrees L q (f a) (f' a)) :
    Agrees L q (p >>= f) (p' >>= f') :=
  hp.bind fun a _ h => h ▸ hf a

theorem pure {a : α} {b : β} (h : r a b) : Agrees L r (Pure.pure a) (Pure.pure b) :=
  fun _ _ hst _ => ⟨h, hst⟩

theorem ite {c : Prop} [Decidable c] {p p₂ : Parser α} {p' p₂' : Parser β}
    (h : Agrees L r p p') (h₂ : Agrees L r p₂ p₂') :
    Agrees L r (if c then p else p₂) (if c then p' else p₂') := by
  split
  · exact h
  · exact h₂

theorem imp {r' : α → β → Prop} {p : Parser α} {p' : Parser β} (h : Agrees L r p p')
    (hr : ∀ a b, r a b → r' a b) : Agrees L r' p p' :=
  fun s t hst hfaults => (h s t hst hfaults).imp_left (hr _ _)

end Agrees

/-! ## Primitives -/

theorem keeps_current? : Keeps L (Option.Rel L.Tokens) current? current? := by
  rintro _ _ ⟨h⟩
  refine ⟨?_, ⟨h⟩⟩
  cases h with
  | nil => exact .none
  | cons ht _ => exact .some ht

theorem keeps_isAt (kind : TokenKind) : Keeps L Eq (isAt kind) (isAt kind) := by
  rintro _ _ ⟨h⟩
  refine ⟨?_, ⟨h⟩⟩
  cases h with
  | nil => rfl
  | cons ht _ => exact congrArg (· == kind) ht.kind

/-- No keyword is a string, so it does not matter which string stands in its place. -/
theorem text_eq_iff {t u : Token} (h : L.Tokens t u) {word : String} (hw : ¬ startsQuoted word) :
    t.text = word ↔ u.text = word := by
  by_cases hk : t.kind = .string
  · obtain ⟨ht, hu⟩ := h.quoted hk
    exact ⟨fun he => absurd (he ▸ ht) hw, fun he => absurd (he ▸ hu) hw⟩
  · rw [h.text hk]

theorem keeps_isAtWord {word : String} (hw : ¬ startsQuoted word) :
    Keeps L Eq (isAtWord word) (isAtWord word) := by
  rintro _ _ ⟨h⟩
  refine ⟨?_, ⟨h⟩⟩
  cases h with
  | nil => rfl
  | @cons t u _ _ ht _ =>
    show (t.text == word) = (u.text == word)
    rw [Bool.eq_iff_iff, beq_iff_eq, beq_iff_eq]
    exact text_eq_iff ht hw

theorem keeps_second? : Keeps L (Option.Rel L.Tokens) second? second? := by
  rintro _ _ ⟨h⟩
  cases h with
  | nil => exact ⟨.none, ⟨.nil⟩⟩
  | cons ht hrest =>
    cases hrest with
    | nil => exact ⟨.none, ⟨.cons ht .nil⟩⟩
    | @cons t u _ _ hs hrest =>
      refine ⟨?_, ⟨.cons ht (.cons hs hrest)⟩⟩
      show Option.Rel L.Tokens (if t.trivia.any (·.kind == .comma) then none else some t)
        (if u.trivia.any (·.kind == .comma) then none else some u)
      rw [hs.comma]
      split
      · exact .none
      · exact .some hs

theorem keeps_advance : Keeps L Eq advance advance := by
  rintro _ _ ⟨h⟩
  cases h with
  | nil => exact ⟨rfl, ⟨.nil⟩⟩
  | cons _ hrest => exact ⟨rfl, ⟨hrest⟩⟩

theorem run_skip (kind : TokenKind) (t : Token) (ts : List Token) :
    skip kind (.start (t :: ts)) =
      if t.kind = kind then (true, .start ts) else (false, .start (t :: ts)) := by
  show (if (t.kind == kind) = true then _ else _ : Parser Bool) _ = _
  by_cases hk : t.kind = kind
  · rw [if_pos hk, if_pos (beq_iff_eq.mpr hk)]
    rfl
  · rw [if_neg hk, if_neg (mt beq_iff_eq.mp hk)]
    rfl

theorem keeps_skip (kind : TokenKind) : Keeps L Eq (skip kind) (skip kind) := by
  rintro _ _ ⟨h⟩
  cases h with
  | nil => exact ⟨rfl, ⟨.nil⟩⟩
  | cons ht hrest =>
    rw [run_skip, run_skip, ht.kind]
    split
    · exact ⟨rfl, ⟨hrest⟩⟩
    · exact ⟨rfl, ⟨.cons ht hrest⟩⟩

/-- A fault is noted unless the text has come to its end. -/
theorem agrees_note (fault fault' : GrammarFault) : Agrees L Eq (note fault) (note fault') := by
  rintro _ _ ⟨h⟩ hfaults
  cases h with
  | nil => exact ⟨rfl, ⟨.nil⟩⟩
  | cons _ _ => exact absurd hfaults (List.cons_ne_nil _ _)

theorem agrees_noteAndAdvance (fault fault' : GrammarFault) :
    Agrees L Eq (noteAndAdvance fault) (noteAndAdvance fault') :=
  (agrees_note fault fault').bind_eq fun _ => keeps_advance.agrees

theorem agrees_exhausted : Agrees L Eq exhausted exhausted := by
  rintro _ _ ⟨h⟩ hfaults
  cases h with
  | nil => exact ⟨rfl, ⟨.nil⟩⟩
  | cons _ _ => exact absurd hfaults (List.cons_ne_nil _ _)

theorem agrees_expect (closer : Closer) : Agrees L Eq (expect closer) (expect closer) := by
  refine keeps_current?.bind fun a b hab => ?_
  cases hab with
  | none => exact .pure rfl
  | some ht =>
    dsimp only
    rw [ht.kind]
    exact .ite keeps_advance.agrees (agrees_note _ _)

theorem agrees_skipWord {word : String} (hw : ¬ startsQuoted word) :
    Agrees L Eq (skipWord word) (skipWord word) :=
  (keeps_isAtWord hw).bind_eq fun _ => .ite keeps_advance.agrees (.pure rfl)

theorem agrees_nameOr (missing missing' : GrammarFault) :
    Agrees L (Option.Rel L.Names) (nameOr missing) (nameOr missing') := by
  rintro _ _ ⟨h⟩ hfaults
  cases h with
  | nil => exact ⟨.none, ⟨.nil⟩⟩
  | @cons t u ts us ht hrest =>
    simp only [State.start, run_nameOr, ← ht.kind] at hfaults ⊢
    by_cases hk : t.kind = .name
    · rw [if_pos hk, if_pos hk]
      exact ⟨.some ⟨ht.text (by rw [hk]; decide), ht.offset⟩, ⟨hrest⟩⟩
    · rw [if_neg hk] at hfaults
      exact absurd hfaults (List.cons_ne_nil _ _)

theorem agrees_name : Agrees L (Option.Rel L.Names) name name := agrees_nameOr _ _

theorem agrees_description? :
    Agrees L (Option.Rel L.value) description? description? := by
  refine keeps_current?.bind fun a b hab => ?_
  cases hab with
  | none => exact .pure .none
  | @some t u ht =>
    dsimp only
    rw [← ht.kind]
    by_cases hk : t.kind = .string
    · rw [if_pos hk, if_pos hk]
      exact keeps_advance.bind_eq fun _ => .pure (.some (ht.value hk))
    · rw [if_neg hk, if_neg hk]
      exact .pure .none

theorem agrees_atMost {step : Parser (Option α)} {step' : Parser (Option β)} [Silent step]
    (h : Agrees L (Option.Rel r) step step') (turns : Nat) :
    Agrees L (List.Forall₂ r) (atMost step turns) (atMost step' turns) := by
  induction turns with
  | zero => exact .pure .nil
  | succ turns ih =>
    refine h.bind_of_silent (fun o => ?_) fun a b hab => ?_
    · cases o <;> infer_instance
    · cases hab with
      | none => exact .pure .nil
      | some hr => exact ih.bind fun _ _ hrest => .pure (.cons hr hrest)

theorem agrees_many {step : Parser (Option α)} {step' : Parser (Option β)} [h : Silent step]
    (hstep : Agrees L (Option.Rel r) step step') :
    Agrees L (List.Forall₂ r) (many step) (many step') := by
  intro s t hst hfaults
  have hlength : s.ahead.length = t.ahead.length := by
    obtain ⟨hahead⟩ := hst
    exact hahead.length_eq
  have hrun : many step' t = atMost step' (s.ahead.length + 1) t := by
    rw [hlength]
    rfl
  rw [hrun]
  exact agrees_atMost hstep (s.ahead.length + 1) s t hst hfaults

theorem agrees_kept {items : List (Option α)} {items' : List (Option β)}
    (h : List.Forall₂ (Option.Rel r) items items') :
    Agrees L (List.Forall₂ r) (pure (items.filterMap id)) (pure (items'.filterMap id)) :=
  .pure (List.rel_filterMap (fun _ _ h => h) h)

theorem agrees_members {item : Parser (Option α)} {item' : Parser (Option β)} [Silent item]
    (h : Agrees L (Option.Rel r) item item') :
    Agrees L (List.Forall₂ r) (members item) (members item') := by
  refine (agrees_many ?_).bind fun _ _ hitems => agrees_kept hitems
  refine (keeps_isAt _).bind_eq fun _ => (keeps_isAt _).bind_eq fun _ => .ite ?_ (.pure .none)
  exact h.bind fun _ _ hr => .pure (.some hr)

theorem agrees_separated {item : Parser (Option α)} {item' : Parser (Option β)} [Silent item]
    (separator : TokenKind) (h : Agrees L (Option.Rel r) item item') :
    Agrees L (List.Forall₂ r) (separated separator item) (separated separator item') := by
  refine (keeps_skip separator).bind_eq fun _ => h.bind fun _ _ hfirst => ?_
  refine (agrees_many ?_).bind fun _ _ hrest => agrees_kept (.cons hfirst hrest)
  refine (keeps_skip separator).bind_eq fun _ => .ite ?_ (.pure .none)
  exact h.bind fun _ _ hr => .pure (.some hr)

/-! ## Values and directives -/

theorem agrees_complain (pass : Bool) (fault : GrammarFault) :
    Agrees L Eq (complain pass fault) (complain pass fault) :=
  .ite (agrees_noteAndAdvance _ _) (agrees_note _ _)

section Values

variable {inner : Option (Parser (Option Value))} (hs : ∀ p ∈ inner, Silent p)
  (h : ∀ p ∈ inner, Agrees L (Option.Rel L.Values) p p)
include hs h

theorem agrees_listItems : Agrees L (List.Forall₂ Eq) (listItems inner) (listItems inner) := by
  refine agrees_many (h := silent_current?.seq fun t => ?_) (keeps_current?.bind fun a b hab => ?_)
  · cases t with
    | none => exact .pure none
    | some t =>
      cases inner with
      | none => exact .ite
      | some p =>
        have := hs p rfl
        exact .ite
  · cases hab with
    | none => exact .pure .none
    | some ht =>
      dsimp only
      rw [ht.kind]
      refine .ite (keeps_advance.bind_eq fun _ => .pure .none) (.ite (.pure .none) ?_)
      cases inner with
      | none => exact agrees_exhausted.bind_eq fun _ => .pure .none
      | some p => exact (h p rfl).bind fun _ _ _ => .pure (.some rfl)

theorem agrees_objectFields :
    Agrees L (List.Forall₂ Eq) (objectFields inner) (objectFields inner) := by
  cases inner with
  | none =>
    refine agrees_many ((keeps_isAt _).bind_eq fun _ => .ite ?_ (.pure .none))
    refine agrees_name.bind fun _ _ _ => (keeps_skip _).bind_eq fun _ => .ite ?_ (.pure (.some rfl))
    exact agrees_exhausted.bind_eq fun _ => .pure (.some rfl)
  | some p =>
    have := hs p rfl
    refine agrees_many ((keeps_isAt _).bind_eq fun _ => .ite ?_ (.pure .none))
    refine agrees_name.bind fun _ _ _ => (keeps_skip _).bind_eq fun _ => .ite ?_ (.pure (.some rfl))
    exact (h p rfl).bind fun _ _ _ => .pure (.some rfl)

theorem agrees_valueWith (constant pass : Bool) :
    Agrees L (Option.Rel L.Values) (valueWith constant inner pass)
      (valueWith constant inner pass) := by
  have hlist := silent_listItems hs
  have hfields := silent_objectFields hs
  refine keeps_current?.bind fun a b hab => ?_
  cases hab with
  | none => exact .pure .none
  | @some t u ht =>
    have hname : Agrees L (Option.Rel L.Values) (do
        advance
        return (← name).map fun _ => .other) (do
        advance
        return (← name).map fun _ => .other) := by
      refine keeps_advance.bind_eq fun _ => agrees_name.bind fun n o hn => .pure ?_
      cases hn with
      | none => exact .none
      | some _ => exact .some .other
    dsimp only
    rw [← ht.kind]
    split
    · refine .ite ?_ hname
      exact (agrees_complain pass .variableInConstant).bind_eq fun _ => hname
    · next hk => exact keeps_advance.bind_eq fun _ => .pure (.some (.string (ht.value hk)))
    · exact keeps_advance.bind_eq fun _ => .pure (.some .other)
    · exact keeps_advance.bind_eq fun _ => .pure (.some .other)
    · exact keeps_advance.bind_eq fun _ => .pure (.some .other)
    · refine keeps_advance.bind_eq fun _ => (agrees_listItems hs h).bind fun _ _ _ => ?_
      exact .pure (.some .other)
    · refine keeps_advance.bind_eq fun _ => (agrees_objectFields hs h).bind fun _ _ _ => ?_
      exact (agrees_expect _).bind_eq fun _ => .pure (.some .other)
    · exact (agrees_complain _ _).bind_eq fun _ => .pure .none

end Values

theorem agrees_value (constant : Bool) (levels : Nat) (pass : Bool) :
    Agrees L (Option.Rel L.Values) (value constant levels pass) (value constant levels pass) := by
  induction levels generalizing pass with
  | zero => exact agrees_valueWith (by simp) (by simp) constant pass
  | succ levels ih =>
    refine agrees_valueWith (fun p hp => ?_) (fun p hp => ?_) constant pass
    · obtain rfl := Option.some.inj hp
      infer_instance
    · obtain rfl := Option.some.inj hp
      exact ih true

theorem agrees_argument (constant : Bool) (levels : Nat) :
    Agrees L (Option.Rel L.Arguments) (argument constant levels) (argument constant levels) := by
  refine agrees_name.bind fun n o hn => (keeps_skip _).bind_eq fun _ => .ite ?_ (.pure .none)
  refine (agrees_value constant levels false).bind fun v w hv => .pure ?_
  cases hn with
  | none => exact .none
  | some hn =>
    cases hv with
    | none => exact .none
    | some hv => exact .some ⟨hn.text, hv⟩

/-- An item again and again, as long as a token of some kind stands there. -/
theorem agrees_while {item : Parser α} {item' : Parser β} [Silent item] (kind : TokenKind)
    (h : Agrees L r item item') :
    Agrees L (List.Forall₂ r)
      (many do if ← isAt kind then return some (← item) else return none)
      (many do if ← isAt kind then return some (← item') else return none) := by
  refine agrees_many ((keeps_isAt kind).bind_eq fun _ => .ite ?_ (.pure .none))
  exact h.bind fun _ _ hr => .pure (.some hr)

theorem agrees_arguments (constant : Bool) (levels : Nat) :
    Agrees L (List.Forall₂ L.Arguments) (arguments constant levels)
      (arguments constant levels) := by
  have hrest : Agrees L (List.Forall₂ L.Arguments) (do
      let items ← many do
        if ← isAt .name then return some (← argument constant levels) else return none
      expect .paren
      return items.filterMap id) (do
      let items ← many do
        if ← isAt .name then return some (← argument constant levels) else return none
      expect .paren
      return items.filterMap id) :=
    (agrees_while .name (agrees_argument constant levels)).bind fun _ _ hitems =>
      (agrees_expect _).bind_eq fun _ => agrees_kept hitems
  refine keeps_advance.bind_eq fun _ => (keeps_isAt _).bind_eq fun _ => ?_
  exact .ite ((agrees_note _ _).bind_eq fun _ => hrest) hrest

/-- Where a production starts has a meaning only as long as the text goes on. -/
theorem Agrees.bind_position {f : Nat → Parser α} {f' : Nat → Parser β}
    (hend : r (f 0 (.start [])).1 (f' 0 (.start [])).1 ∧
      L.Matched (f 0 (.start [])).2 (f' 0 (.start [])).2)
    (hf : ∀ o o', L.offset o o' → Agrees L r (f o) (f' o')) :
    Agrees L r (position >>= f) (position >>= f') := by
  rintro _ _ ⟨h⟩ hfaults
  cases h with
  | nil => exact hend
  | cons ht hrest => exact hf _ _ ht.offset _ _ ⟨.cons ht hrest⟩ hfaults

theorem agrees_directive (constant : Bool) (levels : Nat) :
    Agrees L (Option.Rel L.Directives) (directive constant levels)
      (directive constant levels) := by
  refine .bind_position ⟨.none, ⟨.nil⟩⟩ fun o o' ho => ?_
  refine keeps_advance.bind_eq fun _ => agrees_name.bind fun n n' hn => ?_
  have hend : ∀ args args', List.Forall₂ L.Arguments args args' →
      Agrees L (Option.Rel L.Directives) (pure (n.map fun n => ⟨n.text, args, o⟩))
        (pure (n'.map fun n => ⟨n.text, args', o'⟩)) := by
    intro args args' hargs
    refine .pure ?_
    cases hn with
    | none => exact .none
    | some hn => exact .some ⟨hn.text, hargs, ho⟩
  refine (keeps_isAt _).bind_eq fun _ => .ite ?_ (hend [] [] .nil)
  exact (agrees_arguments constant levels).bind hend

instance silent_directive (constant : Bool) (levels : Nat) :
    Silent (directive constant levels) := by
  unfold directive
  dsimp only
  infer_instance

theorem agrees_directives (constant : Bool) (levels : Nat) :
    Agrees L (List.Forall₂ L.Directives) (directives constant levels)
      (directives constant levels) :=
  (agrees_while .atSign (agrees_directive constant levels)).bind fun _ _ hitems =>
    agrees_kept hitems

theorem agrees_constantDirectives :
    Agrees L (List.Forall₂ L.Directives) constantDirectives constantDirectives :=
  agrees_directives true levelLimit

theorem isSome_eq_of_rel {o : Option α} {o' : Option β} (h : Option.Rel r o o') :
    o.isSome = o'.isSome := by
  cases h <;> rfl

theorem agrees_defaultValue (constant : Bool) :
    Agrees L Eq (defaultValue constant) (defaultValue constant) := by
  refine (keeps_skip _).bind_eq fun _ => .ite ?_ (.pure rfl)
  exact (agrees_value constant levelLimit false).bind fun _ _ h => .pure (isSome_eq_of_rel h)

/-! ## Types -/

theorem agrees_dropItemType : Agrees L Eq dropItemType dropItemType := by
  rintro _ _ ⟨h⟩ hfaults
  cases h with
  | nil => exact ⟨rfl, ⟨.nil⟩⟩
  | cons _ hrest =>
    cases hrest with
    | nil => exact absurd hfaults (List.cons_ne_nil _ _)
    | @cons next _ _ _ _ _ =>
      exact absurd (((silent_closeItemType next).path _).faults_eq_nil hfaults)
        (List.cons_ne_nil _ _)

theorem agrees_bang (type : Option TypeRef) : Agrees L Eq (bang type) (bang type) :=
  (keeps_skip _).bind_eq fun _ => .ite (.pure rfl) (.pure rfl)

theorem agrees_itemType {item : Parser (Option TypeRef)} [Silent item] (h : Agrees L Eq item item) :
    Agrees L Eq (itemType item) (itemType item) := by
  refine (keeps_isAt _).bind_eq fun _ => (keeps_isAt _).bind_eq fun _ => .ite ?_ ?_
  · exact h.bind_eq fun _ => (agrees_expect _).bind_eq fun _ => .pure rfl
  · exact agrees_dropItemType.bind_eq fun _ => .pure rfl

theorem agrees_namedTypeRef : Steady L (do
    let n ← name
    bang (n.map fun n => .named n.text)) := by
  refine agrees_name.bind fun n n' hn => ?_
  cases hn with
  | none => exact agrees_bang none
  | some hn =>
    rw [Option.map_some, Option.map_some, hn.text]
    exact agrees_bang _

theorem agrees_typeRefIn (levels : Nat) : Agrees L Eq (typeRefIn levels) (typeRefIn levels) := by
  induction levels with
  | zero =>
    refine (keeps_skip _).bind_eq fun _ => .ite ?_ agrees_namedTypeRef
    exact agrees_exhausted.bind_eq fun _ => .pure rfl
  | succ levels ih =>
    refine (keeps_skip _).bind_eq fun _ => .ite ?_ agrees_namedTypeRef
    exact (agrees_itemType ih).bind_eq fun _ => agrees_bang _

theorem agrees_typeRef : Agrees L Eq typeRef typeRef := agrees_typeRefIn levelLimit

theorem agrees_isAtType : Agrees L Eq isAtType isAtType :=
  (keeps_isAt _).bind_eq fun _ => (keeps_isAt _).bind_eq fun _ => .pure rfl

/-! ## Members -/

/-- A branch that only notes a fault. -/
theorem agrees_note_none (fault fault' : GrammarFault) :
    Agrees L (Option.Rel r) (do note fault; return none) (do note fault'; return none) :=
  (agrees_note fault fault').bind_eq fun _ => .pure .none

theorem agrees_inputValue : Agrees L (Option.Rel L.InputValues) inputValue inputValue := by
  refine agrees_description?.bind fun d d' hd => agrees_name.bind fun n n' hn => ?_
  refine (keeps_skip _).bind_eq fun _ => .ite ?_ (agrees_note_none _ _)
  refine agrees_isAtType.bind_eq fun _ => .ite ?_ (agrees_note_none _ _)
  refine agrees_typeRef.bind_eq fun type => (agrees_defaultValue _).bind_eq fun usable => ?_
  refine agrees_constantDirectives.bind fun ds ds' hds => .pure ?_
  cases hn with
  | none => exact .none
  | some hn =>
    cases type with
    | none => exact .none
    | some type =>
      cases usable with
      | false => exact .none
      | true => exact .some ⟨hd, hn, rfl, hds⟩

instance silent_members {item : Parser (Option α)} [Silent item] : Silent (members item) := .bind

instance silent_inputValue : Silent inputValue := .of_walks walks_inputValue

theorem agrees_enclosed {item : Parser (Option α)} {item' : Parser (Option β)} [Silent item]
    (missing : GrammarFault) (closer : Closer) (h : Agrees L (Option.Rel r) item item') :
    Agrees L (List.Forall₂ r) (enclosed missing closer item) (enclosed missing closer item') := by
  have hrest : Agrees L (List.Forall₂ r) (do
      let items ← members item
      expect closer
      return items) (do
      let items ← members item'
      expect closer
      return items) :=
    (agrees_members h).bind fun _ _ hitems => (agrees_expect closer).bind_eq fun _ => .pure hitems
  refine keeps_advance.bind_eq fun _ => (keeps_isAt _).bind_eq fun _ =>
    (keeps_isAt _).bind_eq fun _ => ?_
  exact .ite ((agrees_note _ _).bind_eq fun _ => hrest) hrest

theorem agrees_argumentDefinitions :
    Agrees L (List.Forall₂ L.InputValues) argumentDefinitions argumentDefinitions :=
  agrees_enclosed _ _ agrees_inputValue

theorem agrees_inputFields :
    Agrees L (List.Forall₂ L.InputValues) inputFields inputFields :=
  agrees_enclosed _ _ agrees_inputValue

theorem agrees_field : Agrees L (Option.Rel L.Fields) field field := by
  refine agrees_description?.bind fun d d' hd => agrees_name.bind fun n n' hn => ?_
  have hrest : ∀ args args', List.Forall₂ L.InputValues args args' →
      Agrees L (Option.Rel L.Fields) (do
        if ← skip .colon then
          if ← isAtType then
            let type ← typeRef
            let directives ← constantDirectives
            return do
              let n ← n
              let type ← type
              return (⟨d, n, args, type, directives⟩ : Field)
          else
            note .noTypeHere
            return none
        else
          note .noFieldType
          return none) (do
        if ← skip .colon then
          if ← isAtType then
            let type ← typeRef
            let directives ← constantDirectives
            return do
              let n ← n'
              let type ← type
              return (⟨d', n, args', type, directives⟩ : Field)
          else
            note .noTypeHere
            return none
        else
          note .noFieldType
          return none) := by
    intro args args' hargs
    refine (keeps_skip _).bind_eq fun _ => .ite ?_ (agrees_note_none _ _)
    refine agrees_isAtType.bind_eq fun _ => .ite ?_ (agrees_note_none _ _)
    refine agrees_typeRef.bind_eq fun type => ?_
    refine agrees_constantDirectives.bind fun ds ds' hds => .pure ?_
    cases hn with
    | none => exact .none
    | some hn =>
      cases type with
      | none => exact .none
      | some type => exact .some ⟨hd, hn, hargs, rfl, hds⟩
  refine (keeps_isAt _).bind_eq fun _ => .ite ?_ (hrest [] [] .nil)
  exact agrees_argumentDefinitions.bind hrest

instance silent_field : Silent field := .of_walks walks_field

theorem agrees_fields : Agrees L (List.Forall₂ L.Fields) fields fields :=
  agrees_enclosed _ _ agrees_field

instance silent_enumValueName : Silent enumValueName := .of_walks walks_enumValueName

theorem agrees_enumValueName :
    Agrees L (Option.Rel L.Names) enumValueName enumValueName := by
  refine keeps_current?.bind fun a b hab => ?_
  cases hab with
  | none => exact .pure .none
  | @some t u ht =>
    dsimp only
    rw [← ht.kind]
    by_cases hk : t.kind = .name
    · rw [if_pos hk, if_pos hk, ← ht.text (by rw [hk]; decide)]
      exact .ite ((agrees_note _ _).bind_eq fun _ => agrees_name) agrees_name
    · rw [if_neg hk, if_neg hk]
      exact agrees_note_none _ _

theorem agrees_enumValue : Agrees L (Option.Rel L.EnumValues) enumValue enumValue := by
  refine agrees_description?.bind fun d d' hd => agrees_enumValueName.bind fun n n' hn => ?_
  refine agrees_constantDirectives.bind fun ds ds' hds => .pure ?_
  cases hn with
  | none => exact .none
  | some hn => exact .some ⟨hd, hn, hds⟩

instance silent_enumValue : Silent enumValue := .of_walks walks_enumValue

theorem agrees_enumValues : Agrees L (List.Forall₂ L.EnumValues) enumValues enumValues :=
  agrees_enclosed _ _ agrees_enumValue

theorem agrees_namedType (missing : GrammarFault) :
    Agrees L (Option.Rel Eq) (namedType missing) (namedType missing) := by
  refine (agrees_nameOr missing missing).bind fun n n' hn => .pure ?_
  cases hn with
  | none => exact .none
  | some hn => exact .some hn.text

theorem agrees_implements : Agrees L Eq implements implements :=
  keeps_advance.bind_eq fun _ =>
    (agrees_separated .amp (agrees_namedType _)).bind fun _ _ _ => .pure rfl

theorem agrees_unionMembers : Agrees L Eq unionMembers unionMembers := by
  refine keeps_advance.bind_eq fun _ => (agrees_separated .pipe (agrees_namedType _)).imp ?_
  intro ms ms' h
  rwa [List.forall₂_eq_eq_eq] at h

/-! ## Selections -/

theorem any_eq_of_rel {o : Option α} {o' : Option β} {f : α → Bool} {g : β → Bool}
    (h : Option.Rel r o o') (hfg : ∀ a b, r a b → f a = g b) : o.any f = o'.any g := by
  cases h with
  | none => rfl
  | some hr => exact hfg _ _ hr

theorem beq_text_eq {t u : Token} (h : L.Tokens t u) {word : String} (hw : ¬ startsQuoted word) :
    (t.text == word) = (u.text == word) := by
  rw [Bool.eq_iff_iff, beq_iff_eq, beq_iff_eq]
  exact text_eq_iff h hw

theorem contains_text_eq {t u : Token} (h : L.Tokens t u) (words : List String)
    (hw : ∀ word ∈ words, ¬ startsQuoted word) : words.contains t.text = words.contains u.text := by
  rw [Bool.eq_iff_iff, List.contains_iff_mem, List.contains_iff_mem]
  exact ⟨fun hm => (text_eq_iff h (hw _ hm)).mp rfl ▸ hm,
    fun hm => (text_eq_iff h (hw _ hm)).mpr rfl ▸ hm⟩

theorem agrees_fragmentName : Agrees L Eq fragmentName fragmentName := by
  refine keeps_current?.bind fun a b hab => ?_
  cases hab with
  | none => exact .pure rfl
  | some ht =>
    dsimp only
    rw [ht.kind, beq_text_eq ht (by decide)]
    exact .ite (.ite (agrees_note _ _) keeps_advance.agrees) (agrees_note _ _)

theorem agrees_typeCondition : Agrees L Eq typeCondition typeCondition := by
  have hname : Steady L (do
      if ← isAt .name then advance else note .noTypeConditionName) :=
    (keeps_isAt _).bind_eq fun _ => .ite keeps_advance.agrees (agrees_note _ _)
  refine (keeps_isAtWord (by decide)).bind_eq fun _ => .ite ?_ ?_
  · exact keeps_advance.bind_eq fun _ => hname
  · exact (agrees_note _ _).bind_eq fun _ => hname

section Selections

variable {nested : Parser (List String)} [Silent nested] (levels : Nat)
  (h : Agrees L Eq nested nested)
include h

theorem agrees_fragment : Agrees L Eq (fragment nested levels) (fragment nested levels) := by
  refine keeps_second?.bind fun a b hab => ?_
  have hnamed : (a.any fun t => t.kind == .name && t.text != "on") =
      b.any fun t => t.kind == .name && t.text != "on" :=
    any_eq_of_rel hab fun t u ht => by rw [ht.kind, bne, bne, beq_text_eq ht (by decide)]
  have hinline : (a.any fun t => t.kind == .atSign || t.kind == .name || t.kind == .braceL) =
      b.any fun t => t.kind == .atSign || t.kind == .name || t.kind == .braceL :=
    any_eq_of_rel hab fun t u ht => by rw [ht.kind]
  have hbody : Steady L (do
      let _ ← directives false levels
      if ← isAt .braceL then
        let _ ← nested
      else note .noInlineSelectionSet) := by
    refine (agrees_directives false levels).bind fun _ _ _ => (keeps_isAt _).bind_eq fun _ => ?_
    exact .ite (h.bind_eq fun _ => .pure rfl) (agrees_note _ _)
  rw [hnamed, hinline]
  refine .ite ?_ (.ite ?_ ?_)
  · refine keeps_advance.bind_eq fun _ => agrees_fragmentName.bind_eq fun _ => ?_
    exact (agrees_directives false levels).bind fun _ _ _ => .pure rfl
  · refine keeps_advance.bind_eq fun _ => (keeps_isAt _).bind_eq fun _ => .ite ?_ hbody
    exact agrees_typeCondition.bind_eq fun _ => hbody
  · exact (agrees_note _ _).bind_eq fun _ => keeps_advance.agrees

theorem agrees_selectedField :
    Agrees L Eq (selectedField nested levels) (selectedField nested levels) := by
  have hset : ∀ n n', Option.Rel L.Names n n' → Agrees L Eq (do
      let _ ← directives false levels
      if ← isAt .braceL then
        let _ ← nested
      return n.map (·.text)) (do
      let _ ← directives false levels
      if ← isAt .braceL then
        let _ ← nested
      return n'.map (·.text)) := by
    intro n n' hn
    have hname : n.map (·.text) = n'.map (·.text) := by
      cases hn with
      | none => rfl
      | some hn => exact congrArg some hn.text
    refine (agrees_directives false levels).bind fun _ _ _ => (keeps_isAt _).bind_eq fun _ => ?_
    exact .ite (h.bind_eq fun _ => .pure hname) (.pure hname)
  have hfield : Steady L (do
      let n ← name
      if ← isAt .parenL then
        let _ ← arguments false levels
      let _ ← directives false levels
      if ← isAt .braceL then
        let _ ← nested
      return n.map (·.text)) := by
    refine agrees_name.bind fun n n' hn => (keeps_isAt _).bind_eq fun _ => .ite ?_ (hset n n' hn)
    exact (agrees_arguments false levels).bind fun _ _ _ => hset n n' hn
  refine keeps_second?.bind fun a b hab => ?_
  rw [any_eq_of_rel hab fun t u ht => congrArg (· == TokenKind.colon) ht.kind]
  refine .ite ?_ hfield
  exact keeps_advance.bind_eq fun _ => keeps_advance.bind_eq fun _ => hfield

theorem agrees_selections :
    Agrees L Eq (selections nested levels) (selections nested levels) := by
  have hitem : Agrees L (Option.Rel Eq) (do
      if ← isAt .spread then
        fragment nested levels
        return some none
      else if ← isAt .name then return some (← selectedField nested levels)
      else return none) (do
      if ← isAt .spread then
        fragment nested levels
        return some none
      else if ← isAt .name then return some (← selectedField nested levels)
      else return none) := by
    refine (keeps_isAt _).bind_eq fun _ => .ite ?_ ((keeps_isAt _).bind_eq fun _ => .ite ?_ ?_)
    · exact (agrees_fragment levels h).bind_eq fun _ => .pure (.some rfl)
    · exact (agrees_selectedField levels h).bind_eq fun _ => .pure (.some rfl)
    · exact .pure .none
  refine (agrees_many hitem).bind fun items items' hitems => ?_
  rw [List.forall₂_eq_eq_eq] at hitems
  rw [hitems]
  exact .ite ((agrees_note _ _).bind_eq fun _ => .pure rfl) (.pure rfl)

end Selections

theorem agrees_selectionSet (levels : Nat) :
    Agrees L Eq (selectionSet levels) (selectionSet levels) := by
  induction levels with
  | zero => exact keeps_advance.bind_eq fun _ => agrees_exhausted.bind_eq fun _ => .pure rfl
  | succ levels ih =>
    refine keeps_advance.bind_eq fun _ => (agrees_selections levels ih).bind_eq fun _ => ?_
    exact (agrees_expect _).bind_eq fun _ => .pure rfl

/-! ## Definitions -/

/-- A part is there in both readings or in neither. -/
theorem agrees_optional {part : Parser (List α)} {part' : Parser (List β)} (opener : TokenKind)
    [Silent part] (h : Agrees L (List.Forall₂ r) part part') :
    Agrees L (fun x y => x.1 = y.1 ∧ List.Forall₂ r x.2 y.2) (optional opener part)
      (optional opener part') := by
  refine (keeps_isAt opener).bind_eq fun _ => .ite ?_ (.pure ⟨rfl, .nil⟩)
  exact h.bind fun _ _ hr => .pure ⟨rfl, hr⟩

theorem agrees_optionalDirectives :
    Agrees L (fun x y => x.1 = y.1 ∧ List.Forall₂ L.Directives x.2 y.2)
      (optional .atSign constantDirectives) (optional .atSign constantDirectives) :=
  agrees_optional _ agrees_constantDirectives

theorem agrees_optionalImplements : Agrees L Eq optionalImplements optionalImplements :=
  (keeps_isAtWord (by decide)).bind_eq fun _ =>
    .ite (agrees_implements.bind_eq fun _ => .pure rfl) (.pure rfl)

instance silent_optional {part : Parser (List α)} (opener : TokenKind) [Silent part] :
    Silent (optional opener part) := .bind

/-- Directives and then members, whatever the kind of type they make up. -/
theorem agrees_parts {members : Parser (List α)} [Silent members] (opener : TokenKind)
    {r : α → α → Prop} (h : Agrees L (List.Forall₂ r) members members)
    (parts : Bool → Bool → List Directive → List α → Parts)
    (hparts : ∀ d f ds ds' xs ys, List.Forall₂ L.Directives ds ds' → List.Forall₂ r xs ys →
      L.Parts (parts d f ds xs) (parts d f ds' ys)) :
    Agrees L L.Parts (do
      let (d, ds) ← optional .atSign constantDirectives
      let (f, xs) ← optional opener members
      return parts d f ds xs) (do
      let (d, ds) ← optional .atSign constantDirectives
      let (f, xs) ← optional opener members
      return parts d f ds xs) := by
  refine agrees_optionalDirectives.bind fun ⟨d, ds⟩ ⟨_, ds'⟩ ⟨hd, hds⟩ => ?_
  refine (agrees_optional opener h).bind fun ⟨f, xs⟩ ⟨_, ys⟩ ⟨hf, hxs⟩ => .pure ?_
  obtain rfl : d = _ := hd
  obtain rfl : f = _ := hf
  exact hparts d f ds ds' xs ys hds hxs

instance silent_fields : Silent fields := .of_walks walks_fields

instance silent_inputFields : Silent inputFields := .of_walks walks_inputFields

instance silent_enumValues : Silent enumValues := .of_walks walks_enumValues

theorem agrees_objectParts {body : List Field → Body}
    (hbody : ∀ fs gs, List.Forall₂ L.Fields fs gs → L.Bodies (body fs) (body gs)) :
    Agrees L L.Parts (objectParts body) (objectParts body) := by
  refine agrees_optionalImplements.bind_eq fun i => ?_
  exact agrees_parts .braceL agrees_fields (fun d f ds fs => ⟨ds, body fs, i || d || f⟩)
    fun _ _ _ _ fs gs hds hfs => ⟨hds, hbody fs gs hfs, rfl⟩

theorem agrees_typeParts (kind : TypeKind) :
    Agrees L L.Parts (typeParts kind) (typeParts kind) := by
  cases kind with
  | object => exact agrees_objectParts fun _ _ => .object
  | interface => exact agrees_objectParts fun _ _ => .interface
  | input =>
    exact agrees_parts .braceL agrees_inputFields (fun d f ds fs => ⟨ds, .input fs, d || f⟩)
      fun _ _ _ _ _ _ hds hfs => ⟨hds, .input hfs, rfl⟩
  | enum =>
    exact agrees_parts .braceL agrees_enumValues (fun d v ds vs => ⟨ds, .enum vs, d || v⟩)
      fun _ _ _ _ _ _ hds hvs => ⟨hds, .enum hvs, rfl⟩
  | union =>
    refine agrees_parts (r := Eq) .equals (agrees_unionMembers.imp ?_)
      (fun d m ds ms => ⟨ds, .union ms, d || m⟩) fun _ _ _ _ ms ms' hds hms => ?_
    · rintro ms _ rfl
      exact List.forall₂_refl ms
    · rw [List.forall₂_eq_eq_eq] at hms
      exact hms ▸ ⟨hds, .union ms, rfl⟩
  | scalar =>
    refine agrees_optionalDirectives.bind fun ⟨d, ds⟩ ⟨d', ds'⟩ ⟨hd, hds⟩ => ?_
    exact .pure ⟨hds, .scalar, hd⟩

instance silent_typeParts (kind : TypeKind) : Silent (typeParts kind) :=
  .of_walks (walks_typeParts kind)

/-- Related names make related definitions. -/
theorem rel_map_definition {n n' : Option Name} (hn : Option.Rel L.Names n n')
    {make make' : Name → Definition}
    (h : ∀ n n', L.Names n n' → L.Definitions (make n) (make' n')) :
    Option.Rel L.Definitions (n.map make) (n'.map make') := by
  cases hn with
  | none => exact .none
  | some hn => exact .some (h _ _ hn)

theorem not_startsQuoted_keyword (kind : TypeKind) : ¬ startsQuoted kind.keyword := by
  cases kind <;> decide

theorem agrees_typeDefinition (kind : TypeKind) :
    Agrees L (Option.Rel L.Definitions) (typeDefinition kind) (typeDefinition kind) := by
  refine .bind_position ?_ fun o o' ho => ?_
  · cases kind <;> exact ⟨.none, ⟨.nil⟩⟩
  refine agrees_description?.bind fun d d' hd => ?_
  refine (agrees_skipWord (not_startsQuoted_keyword kind)).bind_eq fun _ => ?_
  refine (agrees_nameOr _ _).bind fun n n' hn => (agrees_typeParts kind).bind fun p p' hp => ?_
  exact .pure (rel_map_definition hn fun _ _ hn => ⟨rfl, hd, hn, hp.directives, hp.body, ho⟩)

theorem agrees_typeExtension (kind : TypeKind) :
    Agrees L (Option.Rel L.Definitions) (typeExtension kind) (typeExtension kind) := by
  refine .bind_position ?_ fun o o' ho => ?_
  · cases kind <;> exact ⟨.none, ⟨.nil⟩⟩
  refine keeps_advance.bind_eq fun _ => keeps_advance.bind_eq fun _ => ?_
  refine agrees_name.bind fun n n' hn => (agrees_typeParts kind).bind fun p p' hp => ?_
  have hresult : Option.Rel L.Definitions
      (n.map fun n => ⟨true, none, n, p.directives, p.body, o⟩)
      (n'.map fun n => ⟨true, none, n, p'.directives, p'.body, o'⟩) :=
    rel_map_definition hn fun _ _ hn => ⟨rfl, .none, hn, hp.directives, hp.body, ho⟩
  rw [hp.present]
  exact .ite ((agrees_note _ _).bind_eq fun _ => .pure hresult) (.pure hresult)

theorem agrees_operationType : Agrees L Eq operationType operationType := by
  refine keeps_current?.bind fun a b hab => ?_
  rw [any_eq_of_rel hab fun t u ht => contains_text_eq ht operationKeywords (by decide)]
  exact .ite keeps_advance.agrees (agrees_noteAndAdvance _ _)

theorem agrees_rootOperation : Agrees L Eq rootOperation rootOperation := by
  refine agrees_operationType.bind_eq fun _ => (keeps_skip _).bind_eq fun _ => .ite ?_ ?_
  · exact (keeps_isAt _).bind_eq fun _ => .ite keeps_advance.agrees (.pure rfl)
  · exact agrees_note _ _

theorem agrees_rootOperations : Agrees L Eq rootOperations rootOperations := by
  refine (agrees_while .name agrees_rootOperation).bind fun items items' hitems => .pure ?_
  cases hitems <;> rfl

theorem agrees_schemaDefinition : Agrees L Eq schemaDefinition schemaDefinition := by
  refine agrees_description?.bind fun _ _ _ => (agrees_skipWord (by decide)).bind_eq fun _ => ?_
  refine agrees_constantDirectives.bind fun _ _ _ => (keeps_skip _).bind_eq fun _ => ?_
  refine .ite (agrees_rootOperations.bind_eq fun _ => .ite ?_ (agrees_expect _)) (.pure rfl)
  exact (agrees_note _ _).bind_eq fun _ => agrees_expect _

theorem agrees_schemaExtension : Agrees L Eq schemaExtension schemaExtension := by
  refine keeps_advance.bind_eq fun _ => keeps_advance.bind_eq fun _ => ?_
  refine agrees_optionalDirectives.bind fun ⟨d, _⟩ ⟨_, _⟩ ⟨hd, _⟩ => ?_
  obtain rfl : d = _ := hd
  refine (keeps_skip _).bind_eq fun _ => .ite ?_ (.ite (agrees_note _ _) (.pure rfl))
  refine agrees_rootOperations.bind_eq fun _ => (agrees_expect _).bind_eq fun _ => ?_
  exact .ite (agrees_note _ _) (.pure rfl)

theorem agrees_directiveLocation :
    Agrees L (Option.Rel Eq) directiveLocation directiveLocation := by
  refine keeps_current?.bind fun a b hab => ?_
  cases hab with
  | none => exact .pure .none
  | some ht =>
    dsimp only
    rw [ht.kind, contains_text_eq ht directiveLocations (by decide)]
    refine .ite (.ite ?_ (agrees_note_none _ _)) (agrees_note_none _ _)
    exact keeps_advance.bind_eq fun _ => .pure .none

theorem agrees_directiveDefinition : Agrees L Eq directiveDefinition directiveDefinition := by
  have hlocations : Steady L (do
      if (← isAt .name) || (← isAt .pipe) then
        let _ ← separated .pipe directiveLocation
      else note .invalidLocation) := by
    refine (keeps_isAt _).bind_eq fun _ => (keeps_isAt _).bind_eq fun _ => .ite ?_ ?_
    · exact (agrees_separated .pipe agrees_directiveLocation).bind fun _ _ _ => .pure rfl
    · exact agrees_note _ _
  have hon : Steady L (do
      skipWord "repeatable"
      if ← isAtWord "on" then advance else note .noLocations
      if (← isAt .name) || (← isAt .pipe) then
        let _ ← separated .pipe directiveLocation
      else note .invalidLocation) := by
    refine (agrees_skipWord (by decide)).bind_eq fun _ => ?_
    refine (keeps_isAtWord (by decide)).bind_eq fun _ => .ite ?_ ?_
    · exact keeps_advance.bind_eq fun _ => hlocations
    · exact (agrees_note _ _).bind_eq fun _ => hlocations
  have hname : Steady L (do
      let _ ← name
      if ← isAt .parenL then
        let _ ← argumentDefinitions
      skipWord "repeatable"
      if ← isAtWord "on" then advance else note .noLocations
      if (← isAt .name) || (← isAt .pipe) then
        let _ ← separated .pipe directiveLocation
      else note .invalidLocation) := by
    refine agrees_name.bind fun _ _ _ => (keeps_isAt _).bind_eq fun _ => .ite ?_ hon
    exact agrees_argumentDefinitions.bind fun _ _ _ => hon
  refine agrees_description?.bind fun _ _ _ => (agrees_skipWord (by decide)).bind_eq fun _ => ?_
  refine (keeps_skip _).bind_eq fun _ => .ite ?_ hname
  exact (agrees_note _ _).bind_eq fun _ => hname

theorem agrees_variableDefinition : Agrees L Eq variableDefinition variableDefinition := by
  refine keeps_advance.bind_eq fun _ => agrees_name.bind fun _ _ _ => ?_
  refine (keeps_skip _).bind_eq fun _ => .ite ?_ (agrees_note _ _)
  refine agrees_isAtType.bind_eq fun _ => .ite ?_ (agrees_note _ _)
  refine agrees_typeRef.bind_eq fun _ => (agrees_defaultValue true).bind_eq fun _ => ?_
  exact agrees_constantDirectives.bind fun _ _ _ => .pure rfl

theorem agrees_variableDefinitions : Agrees L Eq variableDefinitions variableDefinitions := by
  have hrest : Steady L (do
      let _ ← many do
        if ← isAt .dollar then
          variableDefinition
          return some ()
        else return none
      expect .paren) :=
    (agrees_while .dollar agrees_variableDefinition).bind fun _ _ _ => agrees_expect _
  refine keeps_advance.bind_eq fun _ => (keeps_isAt _).bind_eq fun _ => .ite ?_ hrest
  exact (agrees_note _ _).bind_eq fun _ => hrest

theorem agrees_operation : Agrees L Eq operation operation := by
  have hset : Steady L (do let _ ← selectionSet levelLimit) :=
    (agrees_selectionSet levelLimit).bind_eq fun _ => .pure rfl
  have hrest : Steady L (do
      let _ ← directives false levelLimit
      if ← isAt .braceL then
        let _ ← selectionSet levelLimit
      else noteAndAdvance .noSelectionSetHere) := by
    refine (agrees_directives false levelLimit).bind fun _ _ _ => (keeps_isAt _).bind_eq fun _ => ?_
    exact .ite hset (agrees_noteAndAdvance _ _)
  have hvariables : Steady L (do
      if ← isAt .parenL then variableDefinitions
      let _ ← directives false levelLimit
      if ← isAt .braceL then
        let _ ← selectionSet levelLimit
      else noteAndAdvance .noSelectionSetHere) := by
    refine (keeps_isAt _).bind_eq fun _ => .ite ?_ hrest
    exact agrees_variableDefinitions.bind_eq fun _ => hrest
  refine (keeps_isAt _).bind_eq fun _ => .ite ?_ ?_
  · refine agrees_operationType.bind_eq fun _ => (keeps_isAt _).bind_eq fun _ => .ite ?_ hvariables
    exact keeps_advance.bind_eq fun _ => hvariables
  · exact (keeps_isAt _).bind_eq fun _ => .ite hset (agrees_noteAndAdvance _ _)

theorem agrees_fragmentDefinition : Agrees L Eq fragmentDefinition fragmentDefinition := by
  refine keeps_advance.bind_eq fun _ => agrees_fragmentName.bind_eq fun _ => ?_
  refine agrees_typeCondition.bind_eq fun _ => ?_
  refine (agrees_directives false levelLimit).bind fun _ _ _ => (keeps_isAt _).bind_eq fun _ => ?_
  exact .ite ((agrees_selectionSet levelLimit).bind_eq fun _ => .pure rfl) (agrees_note _ _)

/-- A production whose result is thrown away. -/
theorem agrees_ignored {p : Parser γ} (h : Steady L p) :
    Agrees L (Option.Rel r) (do let _ ← p; return none) (do let _ ← p; return none) :=
  h.bind_eq fun _ => .pure .none

/-- Two words that announce the same: equal ones, and any two strings. -/
def Announce (word word' : String) : Prop :=
  word = word' ∨ startsQuoted word ∧ startsQuoted word'

theorem announce_second {o o' : Option Token} (h : Option.Rel L.Tokens o o') :
    Announce ((o.map (·.text)).getD "") ((o'.map (·.text)).getD "") := by
  cases h with
  | none => exact .inl rfl
  | @some t u ht =>
    by_cases hk : t.kind = .string
    · exact .inr (ht.quoted hk)
    · exact .inl (ht.text hk)

theorem beq_eq_false_of_startsQuoted {text word : String} (h : startsQuoted text)
    (hw : ¬ startsQuoted word) : (text == word) = false :=
  beq_eq_false_iff_ne.mpr fun he => hw (he ▸ h)

theorem ofKeyword?_of_startsQuoted {text : String} (h : startsQuoted text) :
    TypeKind.ofKeyword? text = none := by
  refine List.find?_eq_none.mpr fun kind _ => ?_
  rw [beq_iff_eq]
  exact fun he => not_startsQuoted_keyword kind (he ▸ h)

theorem agrees_extension : Agrees L (Option.Rel L.Definitions) extension extension := by
  refine keeps_second?.bind fun a b hab => ?_
  obtain hword | ⟨ha, hb⟩ := announce_second hab
  · dsimp only
    rw [hword]
    split
    · exact agrees_typeExtension _
    · exact .ite (agrees_ignored agrees_schemaExtension)
        (agrees_ignored (agrees_noteAndAdvance _ _))
  · dsimp only
    rw [ofKeyword?_of_startsQuoted ha, ofKeyword?_of_startsQuoted hb,
      beq_eq_false_of_startsQuoted ha (by decide), beq_eq_false_of_startsQuoted hb (by decide)]
    exact agrees_ignored (agrees_noteAndAdvance _ _)

/-- A string announces no definition. -/
theorem definition_of_startsQuoted {word : String} (h : startsQuoted word) :
    definition word = (do noteAndAdvance .noDefinition; return none) := by
  have hoperation : operationKeywords.contains word = false := by
    rw [Bool.eq_false_iff, Ne, List.contains_iff_mem]
    exact fun hm => (by decide : ∀ w ∈ operationKeywords, ¬ startsQuoted w) word hm h
  have hne : ∀ w, ¬ startsQuoted w → (word == w) = false :=
    fun _ => beq_eq_false_of_startsQuoted h
  unfold definition
  rw [ofKeyword?_of_startsQuoted h, hoperation, hne "extend" (by decide),
    hne "directive" (by decide), hne "fragment" (by decide), hne "schema" (by decide),
    hne "\x7b" (by decide)]
  rfl

theorem agrees_definition {word word' : String} (h : Announce word word') :
    Agrees L (Option.Rel L.Definitions) (definition word) (definition word') := by
  obtain rfl | ⟨h, h'⟩ := h
  · unfold definition
    split
    · exact agrees_typeDefinition _
    · refine .ite agrees_extension (.ite ?_ (.ite ?_ (.ite ?_ (.ite ?_ ?_))))
      · exact agrees_ignored agrees_directiveDefinition
      · exact agrees_ignored agrees_fragmentDefinition
      · exact agrees_ignored agrees_schemaDefinition
      · exact agrees_ignored agrees_operation
      · exact agrees_ignored (agrees_noteAndAdvance _ _)
  · rw [definition_of_startsQuoted h, definition_of_startsQuoted h']
    exact agrees_ignored (agrees_noteAndAdvance _ _)

theorem agrees_nextDefinition :
    Agrees L (Option.Rel (Option.Rel L.Definitions)) nextDefinition nextDefinition := by
  have hword : ∀ word word', Announce word word' →
      Agrees L (Option.Rel (Option.Rel L.Definitions)) (do return some (← definition word))
        (do return some (← definition word')) :=
    fun _ _ h => (agrees_definition h).bind fun _ _ hd => .pure (.some hd)
  refine keeps_current?.bind fun a b hab => ?_
  cases hab with
  | none => exact .pure .none
  | @some t u ht =>
    dsimp only
    rw [← ht.kind]
    split
    · exact .pure .none
    · exact keeps_second?.bind fun _ _ hsecond => hword _ _ (announce_second hsecond)
    · next hk => exact hword _ _ (.inl (ht.text (by rw [hk]; decide)))
    · next hk => exact hword _ _ (.inl (ht.text (by rw [hk]; decide)))
    · exact (agrees_noteAndAdvance _ _).bind_eq fun _ => .pure (.some .none)

instance silent_nextDefinition : Silent nextDefinition := .of_walks walks_nextDefinition

theorem agrees_document : Agrees L (List.Forall₂ L.Definitions) document document := by
  have hrest : Agrees L (List.Forall₂ L.Definitions) (do
      let items ← many nextDefinition
      return items.filterMap id) (do
      let items ← many nextDefinition
      return items.filterMap id) :=
    (agrees_many agrees_nextDefinition).bind fun _ _ hitems => agrees_kept hitems
  refine (keeps_isAt _).bind_eq fun _ => ?_
  exact .ite ((agrees_note _ _).bind_eq fun _ => hrest) hrest

end Parser

/-! ## Marks -/

namespace Likeness

variable {L : Likeness}

/-- Names and directives at related positions. -/
def Marks (L : Likeness) (m n : Mark) : Prop := L.offset m.offset n.offset

theorem Names.marks {n o : Name} (h : L.Names n o) : List.Forall₂ L.Marks n.marks o.marks :=
  .cons h.offset .nil

theorem Directives.marks {d e : Directive} (h : L.Directives d e) :
    List.Forall₂ L.Marks d.marks e.marks :=
  .cons h.offset .nil

theorem forall₂_directive_marks {ds es : List Directive} (h : List.Forall₂ L.Directives ds es) :
    List.Forall₂ L.Marks (ds.flatMap Directive.marks) (es.flatMap Directive.marks) :=
  List.rel_flatMap h fun _ _ => Directives.marks

theorem InputValues.marks {v w : InputValue} (h : L.InputValues v w) :
    List.Forall₂ L.Marks v.marks w.marks :=
  List.rel_append h.name.marks (forall₂_directive_marks h.directives)

theorem Fields.marks {f g : Field} (h : L.Fields f g) : List.Forall₂ L.Marks f.marks g.marks :=
  List.rel_append (List.rel_append h.name.marks
    (List.rel_flatMap h.arguments fun _ _ => InputValues.marks))
    (forall₂_directive_marks h.directives)

theorem EnumValues.marks {v w : EnumValue} (h : L.EnumValues v w) :
    List.Forall₂ L.Marks v.marks w.marks :=
  List.rel_append h.name.marks (forall₂_directive_marks h.directives)

theorem Bodies.marks {b c : Body} (h : L.Bodies b c) : List.Forall₂ L.Marks b.marks c.marks := by
  cases h with
  | object h => exact List.rel_flatMap h fun _ _ => Fields.marks
  | interface h => exact List.rel_flatMap h fun _ _ => Fields.marks
  | input h => exact List.rel_flatMap h fun _ _ => InputValues.marks
  | enum h => exact List.rel_flatMap h fun _ _ => EnumValues.marks
  | union => exact .nil
  | scalar => exact .nil

theorem Definitions.marks {d e : Definition} (h : L.Definitions d e) :
    List.Forall₂ L.Marks d.marks e.marks :=
  List.rel_append (List.rel_append h.name.marks (forall₂_directive_marks h.directives))
    h.body.marks

theorem forall₂_marks {ds es : List Definition} (h : List.Forall₂ L.Definitions ds es) :
    List.Forall₂ L.Marks (ds.flatMap Definition.marks) (es.flatMap Definition.marks) :=
  List.rel_flatMap h fun _ _ => Definitions.marks

/-! ## Likeness that lets nothing differ -/

structure Strict (L : Likeness) : Prop where
  value : ∀ {v w : String}, L.value v w → v = w
  offset : ∀ {o o' : Nat}, L.offset o o' → o = o'

theorem eq_of_forall₂ {α : Type} {r : α → α → Prop} {xs ys : List α}
    (h : List.Forall₂ r xs ys) (hr : ∀ a b, r a b → a = b) : xs = ys := by
  rw [← List.forall₂_eq_eq_eq]
  exact h.imp hr

namespace Strict

variable (hL : L.Strict)
include hL

theorem description {v w : Option String} (h : Option.Rel L.value v w) : v = w := by
  cases h with
  | none => rfl
  | some h => rw [hL.value h]

theorem names (n o : Name) (h : L.Names n o) : n = o := by
  have htext := h.text
  have hoffset := hL.offset h.offset
  cases n
  congr

theorem values {v w : Value} (h : L.Values v w) : v = w := by
  cases h with
  | string h => rw [hL.value h]
  | other => rfl

theorem arguments (a b : Argument) (h : L.Arguments a b) : a = b := by
  have hname := h.name
  have hvalue := hL.values h.value
  cases a
  congr

theorem directives (d e : Directive) (h : L.Directives d e) : d = e := by
  have hname := h.name
  have harguments := eq_of_forall₂ h.arguments hL.arguments
  have hoffset := hL.offset h.offset
  cases d
  congr

theorem inputValues (v w : InputValue) (h : L.InputValues v w) : v = w := by
  have hdescription := hL.description h.description
  have hname := hL.names _ _ h.name
  have htype := h.type
  have hdirectives := eq_of_forall₂ h.directives hL.directives
  cases v
  congr

theorem fields (f g : Field) (h : L.Fields f g) : f = g := by
  have hdescription := hL.description h.description
  have hname := hL.names _ _ h.name
  have harguments := eq_of_forall₂ h.arguments hL.inputValues
  have htype := h.type
  have hdirectives := eq_of_forall₂ h.directives hL.directives
  cases f
  congr

theorem enumValues (v w : EnumValue) (h : L.EnumValues v w) : v = w := by
  have hdescription := hL.description h.description
  have hname := hL.names _ _ h.name
  have hdirectives := eq_of_forall₂ h.directives hL.directives
  cases v
  congr

theorem bodies {b c : Body} (h : L.Bodies b c) : b = c := by
  cases h with
  | object h => rw [eq_of_forall₂ h hL.fields]
  | interface h => rw [eq_of_forall₂ h hL.fields]
  | input h => rw [eq_of_forall₂ h hL.inputValues]
  | enum h => rw [eq_of_forall₂ h hL.enumValues]
  | union => rfl
  | scalar => rfl

theorem definitions (d e : Definition) (h : L.Definitions d e) : d = e := by
  have hextension := h.isExtension
  have hdescription := hL.description h.description
  have hname := hL.names _ _ h.name
  have hdirectives := eq_of_forall₂ h.directives hL.directives
  have hbody := hL.bodies h.body
  have hoffset := hL.offset h.offset
  cases d
  congr

end Strict

end Likeness

end SchemaLint.Sdl
