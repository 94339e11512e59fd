import SchemaLint.Proofs.Sdl.Words

/-!
# Productions and the words they take

`Reads ws vs p P` says that the production `p`, where the words `ws` lie ahead, goes on to
where `vs` do, notes no fault and gives a result that is `P`. One lemma for each production
says which words it takes. The words behind are part of the statement, since a production
looks at the first of them to know that it has come to its end.
-/

namespace SchemaLint.Sdl

/-- The tokens ahead are these words. -/
def State.Shows (s : State) (ws : List Word) : Prop := List.Forall₂ Token.Is s.ahead ws

namespace Parser

def Reads {α : Type} (ws vs : List Word) (p : Parser α) (P : α → Prop) : Prop :=
  ∀ s : State, s.Shows ws → P (p s).1 ∧ (p s).2.Shows vs ∧ (p s).2.faults = s.faults

section Rules

variable {α β : Type} {us vs ws : List Word} {P : α → Prop} {Q : β → Prop}

namespace Reads

theorem bind {p : Parser α} {f : α → Parser β} (hp : Reads ws vs p P)
    (hf : ∀ a, P a → Reads vs us (f a) Q) : Reads ws us (p >>= f) Q := by
  intro s hs
  obtain ⟨ha, hshows, hfaults⟩ := hp s hs
  obtain ⟨hb, hshows', hfaults'⟩ := hf _ ha _ hshows
  exact ⟨hb, hshows', hfaults'.trans hfaults⟩

/-- A step with a known result. -/
theorem step {p : Parser α} {a : α} {f : α → Parser β} (hp : Reads ws vs p (· = a))
    (hf : Reads vs us (f a) Q) : Reads ws us (p >>= f) Q :=
  hp.bind fun _ h => h ▸ hf

theorem pure {a : α} (h : P a) : Reads ws ws (Pure.pure a : Parser α) P :=
  fun _ hs => ⟨h, hs, rfl⟩

theorem imp {p : Parser α} {P' : α → Prop} (hp : Reads ws vs p P) (h : ∀ a, P a → P' a) :
    Reads ws vs p P' :=
  fun s hs => ⟨h _ (hp s hs).1, (hp s hs).2⟩

end Reads

end Rules

/-! ## Primitives -/

section Primitives

variable {w v : Word} {ws : List Word}

theorem Shows.cons {s : State} (h : s.Shows (w :: ws)) :
    ∃ t rest, s = { s with ahead := t :: rest } ∧ t.Is w ∧ List.Forall₂ Token.Is rest ws := by
  obtain ⟨ahead, faults, muted, dropped⟩ := s
  cases h with
  | cons ht hrest => exact ⟨_, _, rfl, ht, hrest⟩

theorem reads_current? :
    Reads (w :: ws) (w :: ws) current? fun o => ∃ t, o = some t ∧ t.Is w := by
  rintro s hs
  refine ⟨?_, hs, rfl⟩
  obtain ⟨t, rest, hs', ht, -⟩ := Shows.cons hs
  rw [hs']
  exact ⟨t, rfl, ht⟩

theorem reads_isAt (kind : TokenKind) :
    Reads (w :: ws) (w :: ws) (isAt kind) (· = (w.kind == kind)) := by
  refine reads_current?.bind ?_
  rintro _ ⟨t, rfl, ht⟩
  exact .pure (by simp [ht.kind])

theorem reads_isAtWord (word : String) :
    Reads (w :: ws) (w :: ws) (isAtWord word) (· = (w.text == word)) := by
  refine reads_current?.bind ?_
  rintro _ ⟨t, rfl, ht⟩
  exact .pure (by simp [ht.text])

theorem reads_advance : Reads (w :: ws) ws advance fun _ => True := by
  intro s hs
  obtain ⟨t, rest, hs', -, hrest⟩ := Shows.cons hs
  rw [hs']
  exact ⟨trivial, hrest, rfl⟩

theorem reads_position : Reads ws ws position fun _ => True := fun _ hs => ⟨trivial, hs, rfl⟩

theorem reads_second? (h : v.isClose = true) :
    Reads (w :: v :: ws) (w :: v :: ws) second? fun o => o.map (·.text) = some v.text := by
  rintro ⟨ahead, faults, muted, dropped⟩ hs
  cases hs with
  | cons ht hrest =>
    cases hrest with
    | @cons t _ _ _ hv hrest =>
      refine ⟨?_, .cons ht (.cons hv hrest), rfl⟩
      show Option.map (·.text) (if t.trivia.any (·.kind == .comma) then none else some t) = _
      rw [if_neg (by simp [hv.close h]), Option.map_some, hv.text]

theorem reads_skip_true {kind : TokenKind} (h : w.kind = kind) :
    Reads (w :: ws) ws (skip kind) (· = true) := by
  refine (reads_isAt kind).step ?_
  rw [if_pos (by simpa using h)]
  exact reads_advance.bind fun _ _ => .pure rfl

theorem reads_skip_false {kind : TokenKind} (h : w.kind ≠ kind) :
    Reads (w :: ws) (w :: ws) (skip kind) (· = false) := by
  refine (reads_isAt kind).step ?_
  rw [if_neg (by simpa using h)]
  exact .pure rfl

theorem reads_skipWord {word : String} (h : w.text = word) :
    Reads (w :: ws) ws (skipWord word) fun _ => True := by
  refine (reads_isAtWord word).step ?_
  rw [if_pos (by simpa using h)]
  exact reads_advance

theorem reads_expect {closer : Closer} (h : w.kind = Closer.kind closer) :
    Reads (w :: ws) ws (expect closer) fun _ => True := by
  refine reads_current?.bind ?_
  rintro _ ⟨t, rfl, ht⟩
  show Reads _ _ (if t.kind = Closer.kind closer then advance else note _) _
  rw [if_pos (ht.kind.trans h)]
  exact reads_advance

theorem reads_nameOr (missing : GrammarFault) (h : w.kind = .name) :
    Reads (w :: ws) ws (nameOr missing) fun o => ∃ n : Name, o = some n ∧ n.text = w.text := by
  refine reads_position.bind fun offset _ => reads_current?.bind ?_
  rintro _ ⟨t, rfl, ht⟩
  show Reads _ _ (if t.kind = .name then _ else _) _
  rw [if_pos (ht.kind.trans h)]
  exact reads_advance.bind fun _ _ => .pure ⟨_, rfl, ht.text⟩

theorem reads_name (h : w.kind = .name) :
    Reads (w :: ws) ws name fun o => ∃ n : Name, o = some n ∧ n.text = w.text :=
  reads_nameOr .noName h

/-- A description on the way to a word that is no string. -/
def descriptionWords : Option String → List Word
  | some text => [.string (blockQuoted text)]
  | none => []

/-- A description that reads as it was written. -/
def IsDescription (description : Option String) : Prop :=
  ∀ text ∈ description, IsPlain text ∧ ∃ c ∈ text.toList, isIndent c = false

theorem reads_description? {description : Option String} (h : IsDescription description)
    (hw : w.kind ≠ .string) :
    Reads (descriptionWords description ++ w :: ws) (w :: ws) description? (· = description) := by
  cases description with
  | none =>
    refine reads_current?.bind ?_
    rintro _ ⟨t, rfl, ht⟩
    show Reads _ _ (if t.kind = .string then _ else _) _
    rw [if_neg (ht.kind ▸ hw)]
    exact .pure rfl
  | some text =>
    obtain ⟨hplain, hink⟩ := h text rfl
    refine reads_current?.bind ?_
    rintro _ ⟨t, rfl, ht⟩
    have hstring : t.kind = .string := ht.kind
    show Reads _ _ (if t.kind = .string then _ else _) _
    rw [if_pos hstring]
    refine reads_advance.bind fun _ _ => .pure ?_
    rw [ht.text]
    exact congrArg some (stringValue_blockQuoted hplain hink)

end Primitives

/-! ## Repetition -/

section Repetition

variable {ι κ α : Type} {R : ι → κ → Prop} {Q : ι → α → Prop} {words : κ → List Word}
  {follows : Word → Prop} {v : Word} {vs : List Word} {ds : List ι} {xs : List κ}

theorem exists_first (hfirst : ∀ d x, R d x → ∃ w ws, words x = w :: ws ∧ follows w)
    (hv : follows v) (h : List.Forall₂ R ds xs) :
    ∃ w ws, xs.flatMap words ++ v :: vs = w :: ws ∧ follows w := by
  cases h with
  | nil => exact ⟨v, vs, rfl, hv⟩
  | cons hd _ =>
    obtain ⟨w, ws, hwords, hw⟩ := hfirst _ _ hd
    exact ⟨w, _, by rw [List.flatMap_cons, hwords]; rfl, hw⟩

section Turns

variable (follows) {step : Parser (Option α)} (h : List.Forall₂ R ds xs)
  (hstep : ∀ d x w ws, R d x → follows w →
    Reads (words x ++ w :: ws) (w :: ws) step fun o => ∃ a, o = some a ∧ Q d a)
  (hfirst : ∀ d x, R d x → ∃ w ws, words x = w :: ws ∧ follows w) (hv : follows v)
  (hend : Reads (v :: vs) (v :: vs) step (· = none))
include h hfirst

theorem length_le_flatMap : xs.length ≤ (xs.flatMap words).length := by
  induction h with
  | nil => exact Nat.le_refl 0
  | cons hd _ ih =>
    obtain ⟨w, ws, hwords, -⟩ := hfirst _ _ hd
    rw [List.flatMap_cons, hwords, List.length_append, List.length_cons, List.length_cons]
    omega

include hstep hv hend

theorem reads_atMost {turns : Nat} (hturns : xs.length < turns) :
    Reads (xs.flatMap words ++ v :: vs) (v :: vs) (atMost step turns) (List.Forall₂ Q ds) := by
  induction h generalizing turns with
  | nil =>
    obtain ⟨turns, rfl⟩ := Nat.exists_eq_succ_of_ne_zero (Nat.ne_of_gt hturns)
    exact hend.step (.pure .nil)
  | @cons d x ds xs hd hrest ih =>
    obtain ⟨turns, rfl⟩ := Nat.exists_eq_succ_of_ne_zero (Nat.ne_zero_of_lt hturns)
    obtain ⟨w, ws, hnext, hw⟩ : ∃ w ws, xs.flatMap words ++ v :: vs = w :: ws ∧ follows w :=
      exists_first hfirst hv hrest
    have hturn := hstep d x w ws hd hw
    rw [← hnext] at hturn
    rw [List.flatMap_cons, List.append_assoc]
    refine hturn.bind ?_
    rintro _ ⟨a, rfl, ha⟩
    exact (ih (Nat.lt_of_succ_lt_succ hturns)).bind fun as has => .pure (.cons ha has)

/-- Each turn takes a word, so there are turns enough. -/
theorem reads_many :
    Reads (xs.flatMap words ++ v :: vs) (v :: vs) (many step) (List.Forall₂ Q ds) := by
  intro s hs
  refine reads_atMost follows h hstep hfirst hv hend ?_ s hs
  have hlength := List.Forall₂.length_eq hs
  have hle := length_le_flatMap follows h hfirst
  rw [List.length_append] at hlength
  omega

end Turns

theorem forall₂_filterMap_id {os : List (Option α)}
    (h : List.Forall₂ (fun d o => ∃ a, o = some a ∧ Q d a) ds os) :
    List.Forall₂ Q ds (os.filterMap id) := by
  induction h with
  | nil => exact .nil
  | cons hd _ ih =>
    obtain ⟨a, rfl, ha⟩ := hd
    exact .cons ha ih

/-- Where a member of a definition starts. -/
def StartsMember (w : Word) : Prop := w.kind = .name ∨ w.kind = .string

/-- What stands behind a member of a definition. -/
def EndsMember (w : Word) : Prop := StartsMember w ∨ w.kind = .braceR ∨ w.kind = .parenR

theorem isMember_of_startsMember {w : Word} (h : StartsMember w) :
    (w.kind == .name || w.kind == .string) = true := by
  simpa [StartsMember] using h

section Members

variable {item : Parser (Option α)} (h : List.Forall₂ R ds xs)
  (hitem : ∀ d x w ws, R d x → EndsMember w →
    Reads (words x ++ w :: ws) (w :: ws) item fun o => ∃ a, o = some a ∧ Q d a)
  (hfirst : ∀ d x, R d x → ∃ w ws, words x = w :: ws ∧ StartsMember w)
include h hitem hfirst

theorem reads_members (hv : v.kind = .braceR ∨ v.kind = .parenR) :
    Reads (xs.flatMap words ++ v :: vs) (v :: vs) (members item) (List.Forall₂ Q ds) := by
  have hfirst' : ∀ d x, R d x → ∃ w ws, words x = w :: ws ∧ EndsMember w := by
    intro d x hd
    obtain ⟨w, ws, hwords, hw⟩ := hfirst d x hd
    exact ⟨w, ws, hwords, .inl hw⟩
  refine Reads.bind (reads_many EndsMember h ?_ hfirst' (.inr hv) ?_) fun os hos =>
    .pure (forall₂_filterMap_id hos)
  · intro d x w ws hd hw
    obtain ⟨u, us, hwords, hu⟩ := hfirst d x hd
    have hread := hitem d x w ws hd hw
    rw [hwords] at hread ⊢
    refine (reads_isAt .name).step ((reads_isAt .string).step ?_)
    rw [if_pos (isMember_of_startsMember hu)]
    exact hread.bind fun o ho => .pure ⟨o, rfl, ho⟩
  · refine (reads_isAt .name).step ((reads_isAt .string).step ?_)
    rw [if_neg (by rcases hv with hv | hv <;> simp [hv])]
    exact .pure rfl

/-- Members between brackets. -/
theorem reads_enclosed {missing : GrammarFault} {closer : Closer} {opening : Word}
    (hv : v.kind = Closer.kind closer) (hkind : v.kind = .braceR ∨ v.kind = .parenR)
    (hne : xs ≠ []) :
    Reads (opening :: (xs.flatMap words ++ v :: vs)) vs (enclosed missing closer item)
      (List.Forall₂ Q ds) := by
  have hmembers : Reads (xs.flatMap words ++ v :: vs) (v :: vs) _ _ :=
    reads_members h hitem hfirst hkind
  obtain ⟨x, xs', rfl⟩ := List.exists_cons_of_ne_nil hne
  cases h with
  | @cons d _ ds _ hd hrest =>
    obtain ⟨u, us, hwords, hu⟩ := hfirst d x hd
    rw [List.flatMap_cons, hwords] at hmembers ⊢
    refine reads_advance.bind fun _ _ => (reads_isAt .name).step ((reads_isAt .string).step ?_)
    rw [if_neg (by simp [isMember_of_startsMember hu])]
    exact hmembers.bind fun as has => (reads_expect hv).bind fun _ _ => .pure has

end Members

end Repetition

/-! ## Types -/

end Parser

/-- The words of a type. -/
def TypeRef.words : TypeRef → List Word
  | .named name => [.ofName name]
  | .list item => .mark .bracketL '[' :: (item.words ++ [.mark .bracketR ']'])
  | .nonNull type => type.words ++ [.mark .bang '!']

/-- A type with lists at most so many levels deep, and no mark behind another. -/
inductive TypeRef.Fits : Nat → TypeRef → Prop
  | named (levels : Nat) (name : String) : Fits levels (.named name)
  | list {levels : Nat} {item : TypeRef} (h : Fits levels item) : Fits (levels + 1) (.list item)
  | nonNull {levels : Nat} {type : TypeRef} (h : Fits levels type)
      (hbare : ∀ t, type ≠ .nonNull t) : Fits levels (.nonNull type)

theorem TypeRef.Fits.mono {m n : Nat} {type : TypeRef} (h : type.Fits m) (hle : m ≤ n) :
    type.Fits n := by
  induction h generalizing n with
  | named _ name => exact .named n name
  | list _ ih =>
    obtain ⟨n, rfl⟩ := Nat.exists_eq_succ_of_ne_zero (Nat.ne_zero_of_lt hle)
    exact .list (ih (Nat.le_of_succ_le_succ hle))
  | nonNull _ hbare ih => exact .nonNull (ih hle) hbare

theorem TypeRef.exists_words (type : TypeRef) :
    ∃ w ws, type.words = w :: ws ∧ (w.kind = .name ∨ w.kind = .bracketL) := by
  induction type with
  | named name => exact ⟨_, _, rfl, .inl rfl⟩
  | list item => exact ⟨_, _, rfl, .inr rfl⟩
  | nonNull type ih =>
    obtain ⟨w, ws, hwords, hw⟩ := ih
    exact ⟨w, _, by rw [TypeRef.words, hwords]; rfl, hw⟩

namespace Parser

variable {w : Word} {us vs ws : List Word} {P : Option TypeRef → Prop}

/-- What is left to do behind the words of a type: to look for a mark, unless there is one. -/
def settleType : TypeRef → Parser (Option TypeRef)
  | .nonNull type => pure (some (.nonNull type))
  | type => bang (some type)

theorem settleType_of_bare {type : TypeRef} (h : ∀ t, type ≠ .nonNull t) :
    settleType type = bang (some type) := by
  cases type with
  | nonNull t => exact absurd rfl (h t)
  | _ => rfl

theorem reads_settleType (type : TypeRef) (hw : w.kind ≠ .bang) :
    Reads (w :: ws) (w :: ws) (settleType type) (· = some type) := by
  cases type with
  | nonNull t => exact .pure rfl
  | _ => exact (reads_skip_false hw).step (.pure rfl)

theorem reads_itemType {item : Parser (Option TypeRef)} {type : TypeRef} (hw : w.kind = .bracketR)
    (h : Reads (type.words ++ w :: ws) (w :: ws) item (· = some type)) :
    Reads (type.words ++ w :: ws) ws (itemType item) (· = some type) := by
  obtain ⟨u, us, hwords, hu⟩ := type.exists_words
  rw [hwords] at h ⊢
  refine (reads_isAt .name).step ((reads_isAt .bracketL).step ?_)
  rw [if_pos (by simpa using hu)]
  exact h.step ((reads_expect hw).bind fun _ _ => .pure rfl)

/-- The induction is on the type with the levels it takes. A mark is read with the type it
stands behind, so each type is read up to where one may stand. -/
theorem reads_typeRefIn_settle {levels : Nat} {type : TypeRef} (h : type.Fits levels)
    (hrest : Reads vs us (settleType type) P) :
    Reads (type.words ++ vs) us (typeRefIn levels) P := by
  induction h generalizing vs us P with
  | named levels name =>
    have hwith (inner : Option (Parser (Option TypeRef))) :
        Reads (TypeRef.words (.named name) ++ vs) us (typeRefWith inner) P := by
      refine (reads_skip_false (by simp)).step ((reads_name rfl).bind ?_)
      rintro _ ⟨n, rfl, hn⟩
      rw [Option.map_some, hn]
      exact hrest
    cases levels with
    | zero => exact hwith _
    | succ levels => exact hwith _
  | @list levels item h ih =>
    have hwords : TypeRef.words (.list item) ++ vs =
        .mark .bracketL '[' :: (item.words ++ .mark .bracketR ']' :: vs) := by
      simp [TypeRef.words]
    rw [hwords]
    refine (reads_skip_true rfl).step ?_
    exact (reads_itemType rfl (ih (reads_settleType item (by decide)))).step hrest
  | @nonNull levels type h hbare ih =>
    rw [TypeRef.words, List.append_assoc]
    refine ih ?_
    rw [settleType_of_bare hbare]
    exact (reads_skip_true rfl).step hrest

theorem reads_typeRef {type : TypeRef} (h : type.Fits levelLimit) (hw : w.kind ≠ .bang) :
    Reads (type.words ++ w :: ws) (w :: ws) typeRef (· = some type) :=
  reads_typeRefIn_settle h (reads_settleType type hw)

theorem reads_isAtType (type : TypeRef) :
    Reads (type.words ++ ws) (type.words ++ ws) isAtType (· = true) := by
  obtain ⟨u, us, hwords, hu⟩ := type.exists_words
  rw [hwords]
  exact (reads_isAt .name).step ((reads_isAt .bracketL).step (.pure (by simpa using hu)))

end Parser

end SchemaLint.Sdl
