import SchemaLint.Proofs.BlankedLines
import SchemaLint.Proofs.Sdl.NameTokens

/-!
# What a field set selects

Reading a field set keeps the names of the fields at its top and forgets the fragments
beside them. Here the same reading keeps all that is selected at the top: fields with the
labels they go by, spreads of fragments, and fragments written in place. The names that the
parser keeps are those of the fields among them, and a field set that can be read selects
something.
-/

namespace SchemaLint.Sdl

open Text

/-- An entry of a selection set, without what is selected inside it. -/
inductive Selection
  | field (label : Option String) (name : String)
  | spread
  | inline
  deriving DecidableEq, Repr

/-- A field counts by its name, whatever its label. -/
def Selection.field? : Selection → Option String
  | .field _ name => some name
  | .spread => none
  | .inline => none

namespace Parser

/-- The label of the field that begins here. -/
def label? : Parser (Option String) := do
  let here ← current?
  let next ← second?
  return if next.any (·.kind == .colon) then here.map (·.text) else none

section Selections

variable (nested : Parser (List String)) (levels : Nat)

/-- A fragment, told apart by what follows its dots. -/
def fragmentSelection : Parser (Option Selection) := do
  let next ← second?
  fragment nested levels
  if next.any fun t => t.kind == .name && t.text != "on" then return some .spread
  else if next.any fun t => t.kind == .atSign || t.kind == .name || t.kind == .braceL then
    return some .inline
  else return none

def fieldSelection : Parser (Option Selection) := do
  let label ← label?
  let n ← selectedField nested levels
  return n.map (.field label)

/-- One selection if one begins here, or nothing in its place if it is at fault. -/
def selection : Parser (Option (Option Selection)) := do
  if ← isAt .spread then return some (← fragmentSelection nested levels)
  else if ← isAt .name then return some (← fieldSelection nested levels)
  else return none

end Selections

section Silent

variable {nested : Parser (List String)} [Silent nested] {levels : Nat}

instance silent_label? : Silent label? := .bind

instance silent_fragmentSelection : Silent (fragmentSelection nested levels) := .bind

instance silent_fieldSelection : Silent (fieldSelection nested levels) := .bind

instance silent_selection : Silent (selection nested levels) := .bind

end Silent

/-- The selections at the top of a field set. -/
def topSelections (braced : Bool) : Parser (List (Option Selection)) := do
  if braced then advance
  many (selection (selectionSet (levelLimit - 1)) (levelLimit - 1))

/-! ## Forgetting fragments and labels -/

section Forget

variable {α β : Type}

theorem run_bind (p : Parser α) (f : α → Parser β) (s : State) :
    (p >>= f) s = f (p s).1 (p s).2 := rfl

theorem run_pure (a : α) (s : State) : (pure a : Parser α) s = (a, s) := rfl

theorem run_isAt (kind : TokenKind) (s : State) :
    isAt kind s = (s.ahead.head?.any (·.kind == kind), s) := rfl

/-- If a step is another one with its result cut down, so are many of them. -/
theorem atMost_forget {step : Parser (Option α)} {rich : Parser (Option β)} {f : β → α}
    (h : ∀ s, step s = ((rich s).1.map f, (rich s).2)) (turns : Nat) (s : State) :
    atMost step turns s = ((atMost rich turns s).1.map f, (atMost rich turns s).2) := by
  induction turns generalizing s with
  | zero => rfl
  | succ turns ih =>
    rw [atMost, atMost, run_bind, run_bind, h]
    cases (rich s).1 with
    | none => rfl
    | some b =>
      show (do return f b :: (← atMost step turns) : Parser (List α)) (rich s).2 = _
      rw [run_bind, ih]
      rfl

theorem many_forget {step : Parser (Option α)} {rich : Parser (Option β)} {f : β → α}
    (h : ∀ s, step s = ((rich s).1.map f, (rich s).2)) (s : State) :
    many step s = ((many rich s).1.map f, (many rich s).2) :=
  atMost_forget h (s.ahead.length + 1) s

end Forget

theorem run_second? (s : State) : (second? s).2 = s := by
  obtain ⟨ahead, faults, muted, dropped⟩ := s
  rcases ahead with _ | ⟨_, _ | _⟩ <;> rfl

section Selections

variable (nested : Parser (List String)) (levels : Nat) (s : State)

theorem fragment_forget :
    (fragment nested levels s).2 = (fragmentSelection nested levels s).2 ∧
      (fragmentSelection nested levels s).1.bind Selection.field? = none := by
  rw [fragmentSelection, run_bind, run_second?, run_bind]
  split
  · exact ⟨rfl, rfl⟩
  · split <;> exact ⟨rfl, rfl⟩

theorem selectedField_forget :
    selectedField nested levels s =
      ((fieldSelection nested levels s).1.bind Selection.field?,
        (fieldSelection nested levels s).2) := by
  have hlabel : (label? s).2 = s := run_second? s
  rw [fieldSelection, run_bind, run_bind, hlabel]
  refine Prod.ext ?_ rfl
  show _ = ((selectedField nested levels s).1.map _).bind _
  cases (selectedField nested levels s).1 <;> rfl

theorem selection_forget :
    (do
      if ← isAt .spread then
        fragment nested levels
        return some none
      else if ← isAt .name then return some (← selectedField nested levels)
      else return none : Parser (Option (Option String))) s =
      ((selection nested levels s).1.map (·.bind Selection.field?),
        (selection nested levels s).2) := by
  rw [selection, run_bind, run_bind, run_isAt]
  split
  · obtain ⟨hstate, hnone⟩ := fragment_forget nested levels s
    rw [run_bind, run_bind, run_pure, run_pure, hstate, Option.map_some, hnone]
  · rw [run_bind, run_bind, run_isAt]
    split
    · rw [run_bind, run_bind, selectedField_forget, run_pure, run_pure, Option.map_some]
    · rfl

/-- The names that are kept are those of the fields. Whatever else is selected counts all
the same: only where nothing is, that is a fault. -/
theorem run_selections :
    selections nested levels s =
      ((many (selection nested levels) s).1.filterMap (·.bind Selection.field?),
        if (many (selection nested levels) s).1.isEmpty then
          (note .noSelection (many (selection nested levels) s).2).2
        else (many (selection nested levels) s).2) := by
  have hnames : ∀ items : List (Option Selection),
      (items.map (·.bind Selection.field?)).filterMap id =
        items.filterMap (·.bind Selection.field?) := fun _ => List.filterMap_map
  rw [selections, run_bind, many_forget (selection_forget nested levels), List.isEmpty_map]
  split
  · exact Prod.ext (hnames _) rfl
  · exact Prod.ext (hnames _) rfl

end Selections

/-! ## A field set that can be read selects something -/

/-- The tokens end with the end of the text. -/
def Closed (ts : List Token) : Prop := ∃ t ∈ ts.getLast?, t.kind = .endOfText

theorem Closed.ne_nil {ts : List Token} (h : Closed ts) : ts ≠ [] := by
  rintro rfl
  obtain ⟨t, ht, -⟩ := h
  cases ht

theorem Closed.tail {t : Token} {rest : List Token} (h : Closed (t :: rest))
    (ht : t.kind ≠ .endOfText) : Closed rest := by
  obtain ⟨last, hlast, hend⟩ := h
  cases rest with
  | nil =>
    cases hlast
    exact absurd hend ht
  | cons next rest => exact ⟨last, List.getLast?_cons_cons ▸ hlast, hend⟩

theorem closed_gather (ending : Nat) (trivia : List Trivia) (ls : List Lexeme) :
    Closed (gather ending trivia ls) := by
  induction ls generalizing trivia with
  | nil => exact ⟨_, rfl, rfl⟩
  | cons l ls ih =>
    rw [gather]
    split
    · obtain ⟨last, hlast, hend⟩ := ih []
      exact ⟨last, by rw [List.getLast?_cons, hlast]; rfl, hend⟩
    · exact ih _
    · exact ih _

theorem faults_note {s : State} (hahead : s.ahead ≠ []) (hmuted : s.muted = false)
    (fault : GrammarFault) : (note fault s).2.faults ≠ [] := by
  obtain ⟨ahead, faults, muted, dropped⟩ := s
  cases ahead with
  | nil => exact absurd rfl hahead
  | cons t rest =>
    cases hmuted
    exact List.cons_ne_nil _ _

theorem faults_of_name_eq_none {s : State} (hahead : s.ahead ≠ []) (hmuted : s.muted = false)
    (h : (name s).1 = none) : (name s).2.faults ≠ [] := by
  obtain ⟨ahead, faults, muted, dropped⟩ := s
  cases ahead with
  | nil => exact absurd rfl hahead
  | cons t rest =>
    rw [name, run_nameOr] at h ⊢
    split at h
    · cases h
    · next hkind =>
      rw [if_neg hkind]
      exact faults_note hahead hmuted .noName

/-- Many steps begin with one, and what comes of it stands first. -/
theorem many_first {α : Type} {step : Parser (Option α)} [h : Silent step] {s : State} {a : α}
    (hfirst : (step s).1 = some a) :
    ∃ rest, (many step s).1 = a :: rest ∧ Path (step s).2 [] (many step s).2 := by
  show ∃ rest, (atMost step (s.ahead.length + 1) s).1 = a :: rest ∧
    Path (step s).2 [] (atMost step (s.ahead.length + 1) s).2
  rw [atMost, run_bind, hfirst]
  exact ⟨_, rfl, (silent_atMost s.ahead.length).path (step s).2⟩

theorem many_eq_nil {α : Type} {step : Parser (Option α)} {s : State}
    (hfirst : (step s).1 = none) : many step s = ([], (step s).2) := by
  show atMost step (s.ahead.length + 1) s = _
  rw [atMost, run_bind, hfirst]
  rfl

/-- What may follow the name of a field. -/
def behindName (nested : Parser (List String)) (levels : Nat) (n : Option Name) :
    Parser (Option String) := do
  if ← isAt .parenL then
    let _ ← arguments false levels
  let _ ← directives false levels
  if ← isAt .braceL then
    let _ ← nested
  return n.map (·.text)

section Selections

variable {nested : Parser (List String)} {levels : Nat} {s : State}

theorem run_selectedField (nested : Parser (List String)) (levels : Nat) (s : State) :
    selectedField nested levels s =
      (name >>= behindName nested levels)
        (if (second? s).1.any (·.kind == .colon) then { s with ahead := s.ahead.tail.tail }
          else s) := by
  rw [selectedField, run_bind, run_second?]
  split <;> rfl

theorem yields_behindName (n : Option Name) :
    Yields (· = n.map (·.text)) (behindName nested levels n) := by
  have hset : Yields (· = n.map (·.text)) (do
      let _ ← directives false levels
      if ← isAt .braceL then
        let _ ← nested
      return n.map (·.text)) :=
    .after fun _ => .after fun _ => .ite (.after fun _ => .pure rfl) (.pure rfl)
  exact .after fun _ => .ite (.after fun _ => hset) hset

-- A choice inside a sequence makes a large instance problem.
set_option synthInstance.maxSize 4096 in
instance silent_behindName [Silent nested] (n : Option Name) :
    Silent (behindName nested levels n) := by
  unfold behindName
  dsimp only
  infer_instance

theorem tail_ne_nil_of_label (hclosed : Closed s.ahead)
    (h : (second? s).1.any (·.kind == .colon) = true) : s.ahead.tail.tail ≠ [] := by
  obtain ⟨ahead, faults, muted, dropped⟩ := s
  rcases ahead with _ | ⟨label, _ | ⟨colon, rest⟩⟩
  · cases h
  · cases h
  · change (if _ then none else some colon : Option Token).any _ = true at h
    split at h
    · cases h
    · have hkind : colon.kind = .colon := beq_iff_eq.mp h
      rintro (rfl : rest = [])
      obtain ⟨last, hlast, hend⟩ := hclosed
      cases hlast
      have hcolon : colon.kind = .endOfText := hend
      rw [hkind] at hcolon
      cases hcolon

/-- A missing name is at fault, whatever follows. -/
theorem faults_of_unnamed [Silent nested] (hahead : s.ahead ≠ []) (hmuted : s.muted = false)
    (h : ((name >>= behindName nested levels) s).1 = none) :
    ((name >>= behindName nested levels) s).2.faults ≠ [] := by
  rw [run_bind] at h ⊢
  have hname : (name s).1 = none :=
    Option.map_eq_none_iff.mp ((yields_behindName _ _).symm.trans h)
  have hpath : Path (name s).2 [] (behindName nested levels (name s).1 (name s).2).2 :=
    (silent_behindName _).path _
  intro hfaults
  exact faults_of_name_eq_none hahead hmuted hname (hpath.faults_eq_nil hfaults)

/-- A field without a name has something else in its place, be it the end of the text. -/
theorem faults_of_fieldSelection_eq_none [Silent nested] (hclosed : Closed s.ahead)
    (hmuted : s.muted = false) (h : (fieldSelection nested levels s).1 = none) :
    (fieldSelection nested levels s).2.faults ≠ [] := by
  have hrun := selectedField_forget nested levels s
  rw [h, run_selectedField, Prod.ext_iff] at hrun
  rw [← hrun.2]
  refine faults_of_unnamed ?_ ?_ hrun.1
  · split
    · next hlabel => exact tail_ne_nil_of_label hclosed hlabel
    · exact hclosed.ne_nil
  · split
    · exact hmuted
    · exact hmuted

theorem faults_of_fragmentSelection_eq_none (hahead : s.ahead ≠ []) (hmuted : s.muted = false)
    (h : (fragmentSelection nested levels s).1 = none) :
    (fragmentSelection nested levels s).2.faults ≠ [] := by
  rw [← (fragment_forget nested levels s).1]
  rw [fragmentSelection, run_bind, run_second?, run_bind] at h
  split at h
  · cases h
  · split at h
    · cases h
    · next hspread hinline =>
      rw [fragment, run_bind, run_second?, if_neg hspread, if_neg hinline]
      exact faults_note hahead hmuted .noFragmentAfterSpread

/-- What stands ahead decides which selection is read, if any. -/
theorem selection_cases (nested : Parser (List String)) (levels : Nat) (s : State) :
    ((∃ t ∈ s.ahead, t.kind = .spread) ∧ selection nested levels s =
        (some (fragmentSelection nested levels s).1, (fragmentSelection nested levels s).2)) ∨
      ((∃ t ∈ s.ahead, t.kind = .name) ∧ selection nested levels s =
        (some (fieldSelection nested levels s).1, (fieldSelection nested levels s).2)) ∨
      selection nested levels s = (none, s) := by
  have hahead : ∀ {kind : TokenKind}, s.ahead.head?.any (·.kind == kind) = true →
      ∃ t ∈ s.ahead, t.kind = kind := by
    intro kind hany
    obtain ⟨t, ht, hkind⟩ := (Option.any_eq_true _ _).mp hany
    exact ⟨t, List.mem_of_mem_head? ht, beq_iff_eq.mp hkind⟩
  rw [selection, run_bind, run_isAt]
  split
  · next hspread => exact .inl ⟨hahead hspread, rfl⟩
  · rw [run_bind, run_isAt]
    split
    · next hname => exact .inr (.inl ⟨hahead hname, rfl⟩)
    · exact .inr (.inr rfl)

theorem faults_of_selection_eq_none [Silent nested] (hclosed : Closed s.ahead)
    (hmuted : s.muted = false) (h : (selection nested levels s).1 = some none) :
    (selection nested levels s).2.faults ≠ [] := by
  rcases selection_cases nested levels s with ⟨-, hrun⟩ | ⟨-, hrun⟩ | hrun
  · rw [hrun] at h ⊢
    exact faults_of_fragmentSelection_eq_none hclosed.ne_nil hmuted (Option.some.inj h)
  · rw [hrun] at h ⊢
    exact faults_of_fieldSelection_eq_none hclosed hmuted (Option.some.inj h)
  · rw [hrun] at h
    cases h

/-- Where nothing is selected nothing is read. -/
theorem run_selection_of_none (h : (selection nested levels s).1 = none) :
    (selection nested levels s).2 = s := by
  rcases selection_cases nested levels s with ⟨-, hrun⟩ | ⟨-, hrun⟩ | hrun
  · rw [hrun] at h
    cases h
  · rw [hrun] at h
    cases h
  · rw [hrun]

theorem selection_eq_none (h : ∀ t ∈ s.ahead, t.kind = .endOfText) :
    (selection nested levels s).1 = none := by
  rcases selection_cases nested levels s with ⟨⟨t, ht, hkind⟩, -⟩ | ⟨⟨t, ht, hkind⟩, -⟩ | hrun
  · rw [h t ht] at hkind
    cases hkind
  · rw [h t ht] at hkind
    cases hkind
  · rw [hrun]

theorem selected_ne_nil [Silent nested] (hclosed : Closed s.ahead) (hmuted : s.muted = false)
    (h : (selections nested levels s).2.faults = []) :
    (many (selection nested levels) s).1.filterMap id ≠ [] := by
  rw [run_selections] at h
  cases hfirst : (selection nested levels s).1 with
  | none =>
    rw [many_eq_nil hfirst, run_selection_of_none hfirst] at h
    exact absurd h (faults_note hclosed.ne_nil hmuted .noSelection)
  | some found =>
    obtain ⟨rest, hitems, hpath⟩ := many_first hfirst
    rw [hitems] at h ⊢
    cases found with
    | none =>
      have hfaults := hpath.faults_eq_nil h
      exact absurd hfaults (faults_of_selection_eq_none hclosed hmuted hfirst)
    | some found => exact List.cons_ne_nil _ _

end Selections

/-- The parser keeps the fields among the selections at the top. -/
theorem names_fieldSet (braced : Bool) (s : State) :
    (fieldSet braced s).1 =
      (topSelections braced s).1.filterMap (·.bind Selection.field?) := by
  cases braced with
  | false => exact congrArg Prod.fst (run_selections _ _ s)
  | true =>
    show (selections (selectionSet (levelLimit - 1)) (levelLimit - 1) (advance s).2).1 = _
    rw [run_selections]
    rfl

theorem topSelections_ne_nil {braced : Bool} {s : State}
    (hclosed : Closed (if braced then s.ahead.tail else s.ahead)) (hmuted : s.muted = false)
    (h : (fieldSet braced s).2.faults = []) :
    (topSelections braced s).1.filterMap id ≠ [] := by
  cases braced with
  | false => exact selected_ne_nil hclosed hmuted h
  | true =>
    refine selected_ne_nil (s := (advance s).2) hclosed hmuted ?_
    exact ((silent_expect .brace).path _).faults_eq_nil h

end Parser

/-! ## Field sets as texts -/

/-- What the text of a field set selects at its top, read with or without braces. -/
def selectionsOf (text : String) : List Selection :=
  (Parser.topSelections (text.toList.head? == some '\x7b') (.start (tokens text))).1.filterMap id

theorem mergeFaults_eq_nil_iff {lexical grammar : List LocatedFault} :
    mergeFaults lexical grammar = [] ↔ lexical = [] ∧ grammar = [] := by
  have hperm : (mergeFaults lexical grammar).Perm (lexical ++ grammar) := List.merge_perm_append _
  rw [← List.append_eq_nil_iff]
  constructor
  · intro h
    rwa [h, List.nil_perm] at hperm
  · intro h
    rwa [h, List.perm_nil] at hperm

/-- What comes of the text of a field set, and the state in which reading stops. -/
def runFieldSet (text : String) : List String × State :=
  Parser.fieldSet (text.toList.head? == some '\x7b') (.start (tokens text))

/-- A field set can be read if no fault was noted and none lies in what was looked at. -/
theorem readFieldSet_eq_ok_iff {text : String} {names : List String} :
    readFieldSet text = .ok names ↔
      ((lexicalFaults (lexemes text)).filter fun f =>
        (runFieldSet text).2.ahead.head?.all (f.offset < ·.offset)) = [] ∧
      (runFieldSet text).2.faults = [] ∧ (runFieldSet text).1 = names := by
  unfold readFieldSet
  dsimp only
  split
  next names' s hrun =>
  have hrun : runFieldSet text = (names', s) := hrun
  rw [hrun]
  split
  · next hmerge =>
    rw [mergeFaults_eq_nil_iff, List.reverse_eq_nil_iff] at hmerge
    rw [Except.ok.injEq]
    exact ⟨fun h => ⟨hmerge.1, hmerge.2, h⟩, fun h => h.2.2⟩
  · next hmerge =>
    constructor
    · intro h
      cases h
    · intro h
      have hnil := mergeFaults_eq_nil_iff.mpr ⟨h.1, List.reverse_eq_nil_iff.mpr h.2.1⟩
      rw [hmerge] at hnil
      cases hnil

theorem names_of_readFieldSet {text : String} {names : List String}
    (h : readFieldSet text = .ok names) :
    names = (selectionsOf text).filterMap Selection.field? := by
  rw [← (readFieldSet_eq_ok_iff.mp h).2.2, runFieldSet, Parser.names_fieldSet, selectionsOf,
    List.filterMap_filterMap]
  rfl

theorem tokens_of_brace {text : String} {cs : List Char} (h : text.toList = '\x7b' :: cs) :
    ∃ t rest, tokens text = t :: rest ∧ t.kind = .braceL := by
  rw [tokens, lexemes, h]
  exact ⟨_, _, rfl, rfl⟩

theorem selectionsOf_ne_nil {text : String} {names : List String}
    (h : readFieldSet text = .ok names) : selectionsOf text ≠ [] := by
  refine Parser.topSelections_ne_nil ?_ rfl (readFieldSet_eq_ok_iff.mp h).2.1
  have hclosed : Parser.Closed (tokens text) := Parser.closed_gather _ _ _
  split
  · next hbraced =>
    obtain ⟨cs, hcs⟩ := List.head?_eq_some_iff.mp (beq_iff_eq.mp hbraced)
    obtain ⟨t, rest, htokens, hkind⟩ := tokens_of_brace hcs
    show Parser.Closed (tokens text).tail
    rw [htokens] at hclosed ⊢
    exact hclosed.tail (by rw [hkind]; decide)
  · exact hclosed

/-- A lexeme that begins with a blank is white space or at fault. -/
theorem scan_of_isBlank {c : Char} (h : isBlank c = true) (cs : List Char) (kind : TokenKind) :
    (scan c cs).kind ≠ .token kind := by
  intro hkind
  cases hspace : isSpace c with
  | true =>
    rw [scan_space hspace] at hkind
    cases hkind
  | false =>
    have hfault : ¬ (scan c cs).IsFault := by
      intro hfault
      obtain ⟨fault, hfault⟩ := hfault
      rw [hkind] at hfault
      cases hfault
    rw [Source.isBlank_of_printed (Source.printed_of_scan hspace hfault)] at h
    cases h

theorem kind_of_mem_lexemesFrom_of_allBlank {skip offset : Nat} {cs : List Char} {l : Lexeme}
    (hblank : allBlank cs = true) (h : l ∈ lexemesFrom skip offset cs) (kind : TokenKind) :
    l.kind ≠ .token kind := by
  fun_induction lexemesFrom skip offset cs with
  | case1 => simp at h
  | case2 offset skip c cs ih =>
    exact ih (Bool.and_eq_true_iff.mp hblank).2 h
  | case3 offset c cs s ih =>
    rw [allBlank, List.all_cons, Bool.and_eq_true] at hblank
    rcases List.mem_cons.mp h with rfl | h
    · exact scan_of_isBlank hblank.1 cs kind
    · exact ih hblank.2 h

/-- A blank field set selects nothing. -/
theorem selectionsOf_of_allBlank {text : String} (h : allBlank text.toList = true) :
    selectionsOf text = [] := by
  have hend : ∀ t ∈ tokens text, t.kind = .endOfText := by
    intro t ht
    by_contra hne
    obtain ⟨l, hl, hkind, -⟩ := exists_lexeme_of_mem_gather ht hne
    exact kind_of_mem_lexemesFrom_of_allBlank h hl _ hkind
  have htop : ∀ braced, (Parser.topSelections braced (.start (tokens text))).1 = [] := by
    intro braced
    cases braced with
    | false => exact congrArg Prod.fst (Parser.many_eq_nil (Parser.selection_eq_none hend))
    | true =>
      refine congrArg Prod.fst (Parser.many_eq_nil (Parser.selection_eq_none ?_))
      exact fun t ht => hend t (List.mem_of_mem_tail ht)
  rw [selectionsOf, htop]
  rfl

end SchemaLint.Sdl
