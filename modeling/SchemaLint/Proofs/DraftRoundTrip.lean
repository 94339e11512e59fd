import SchemaLint.Proofs.CleanSchema
import SchemaLint.Proofs.Sdl.DraftReads
import SchemaLint.Proofs.Sdl.NameTokens

/-!
# Reading a draft gives it back

The text of a well-formed draft is read without a syntax error, and to the definitions that
the draft means. Only the depth of lists in types has a limit, and the limit is sharp.
-/

namespace SchemaLint.Sdl.Parser

variable {w : Word} {ws vs : List Word}

/-! ## Types that nest too deep -/

/-- The production notes a fault where these words lie ahead. -/
def Fails {α : Type} (ws : List Word) (p : Parser α) : Prop :=
  ∀ s : State, s.Honest → s.Shows ws → (p s).2.faults ≠ []

section Fails

variable {α β : Type} {p : Parser α} {f : α → Parser β} {P : α → Prop}

/-- A fault stays, whatever is read behind it. -/
theorem Fails.bind [hf : ∀ a, Silent (f a)] (h : Fails ws p) : Fails ws (p >>= f) := by
  intro s hs hshows hnil
  apply h s hs hshows
  exact ((hf (p s).1).path (p s).2).faults_eq_nil hnil

theorem Reads.fails [hp : Silent p] (h : Reads ws vs p P) (hf : ∀ a, P a → Fails vs (f a)) :
    Fails ws (p >>= f) := by
  intro s hs hshows
  obtain ⟨ha, hshows', -⟩ := h s hshows
  exact hf _ ha _ ((hp.path s).honest hs) hshows'

theorem Reads.step_fails {a : α} [Silent p] (h : Reads ws vs p (· = a)) (hf : Fails vs (f a)) :
    Fails ws (p >>= f) :=
  h.fails fun _ ha => ha ▸ hf

theorem fails_many {step : Parser (Option α)} [hstep : Silent step] (h : Fails ws step) :
    Fails ws (many step) := by
  intro s hs hshows
  show (atMost step (s.ahead.length + 1) s).2.faults ≠ []
  rw [atMost]
  refine @Fails.bind ws _ _ step _ (fun o => ?_) h s hs hshows
  cases o with
  | none => exact .pure []
  | some a => exact .bind

end Fails

theorem fails_exhausted : Fails (w :: ws) exhausted := by
  intro ⟨ahead, faults, muted, dropped⟩ hs hshows
  cases hshows with
  | cons =>
    cases muted with
    | true => exact hs.muted rfl
    | false => exact List.cons_ne_nil _ _

/-- The induction is on the type, which has a next word at each of its brackets. -/
theorem fails_typeRefIn {m levels : Nat} {type : TypeRef} (h : type.Fits m)
    (hdeep : ¬ type.Fits levels) : Fails (type.words ++ ws) (typeRefIn levels) := by
  induction h generalizing levels ws with
  | named _ name => exact absurd (.named levels name) hdeep
  | @list m item h ih =>
    have hwords : TypeRef.words (.list item) ++ ws =
        .mark .bracketL '[' :: (item.words ++ .mark .bracketR ']' :: ws) := by
      simp [TypeRef.words]
    obtain ⟨u, us, hitem, hu⟩ := item.exists_words
    cases levels with
    | zero =>
      rw [hwords, hitem]
      exact (reads_skip_true rfl).step_fails fails_exhausted.bind
    | succ levels =>
      have hread : Fails (item.words ++ .mark .bracketR ']' :: ws) (typeRefIn levels) :=
        ih fun hfits => hdeep (.list hfits)
      rw [hwords]
      refine (reads_skip_true rfl).step_fails (Fails.bind ?_)
      rw [hitem] at hread ⊢
      refine (reads_isAt .name).step_fails ((reads_isAt .bracketL).step_fails ?_)
      rw [if_pos (by simpa using hu)]
      exact hread.bind
  | @nonNull m type h hbare ih =>
    rw [TypeRef.words, List.append_assoc]
    exact ih fun hfits => hdeep (.nonNull hfits hbare)

section Deep

variable {m : Nat} {name : String} {type : TypeRef} (h : type.Fits m)
  (hdeep : ¬ type.Fits levelLimit)
include h hdeep

theorem fails_field :
    Fails (.ofName name :: .mark .colon ':' :: (type.words ++ ws)) field := by
  have hdescription : Reads (.ofName name :: .mark .colon ':' :: (type.words ++ ws)) _ description?
      (· = none) := @reads_description? _ _ none (by simp [IsDescription]) (by simp)
  refine hdescription.step_fails ((reads_name rfl).fails fun n _ => ?_)
  refine (reads_isAt .parenL).step_fails (Reads.step_fails (a := []) (.pure rfl) ?_)
  refine (reads_skip_true rfl).step_fails ((reads_isAtType type).step_fails ?_)
  exact (fails_typeRefIn h hdeep).bind

theorem fails_fields :
    Fails (.mark .braceL '\x7b' :: .ofName name :: .mark .colon ':' :: (type.words ++ ws))
      fields := by
  have : Silent field := .of_walks walks_field
  refine reads_advance.fails fun _ _ => (reads_isAt .name).step_fails ?_
  refine (reads_isAt .string).step_fails (Fails.bind (Fails.bind (fails_many ?_)))
  refine (reads_isAt .name).step_fails ((reads_isAt .string).step_fails ?_)
  exact (fails_field h hdeep).bind

theorem fails_typeDefinition {field : String} :
    Fails (⟨.name, "type", true⟩ :: .ofName name :: .mark .braceL '\x7b' :: .ofName field ::
      .mark .colon ':' :: (type.words ++ ws)) (typeDefinition .object) := by
  have hfields : Fails (.mark .braceL '\x7b' :: .ofName field :: .mark .colon ':' ::
      (type.words ++ ws)) fields := fails_fields h hdeep
  refine reads_position.fails fun _ _ => ?_
  refine Reads.step_fails (@reads_description? _ _ none (by simp [IsDescription]) (by simp)) ?_
  refine (reads_skipWord rfl).fails fun _ _ => (reads_nameOr _ rfl).fails fun _ _ => Fails.bind ?_
  refine (reads_optionalImplements (by decide)).step_fails ?_
  refine (reads_optional_false (by decide)).step_fails (Fails.bind ?_)
  exact (reads_isAt .braceL).step_fails hfields.bind

theorem fails_document {field : String} :
    Fails (⟨.name, "type", true⟩ :: .ofName name :: .mark .braceL '\x7b' :: .ofName field ::
      .mark .colon ':' :: (type.words ++ ws)) document := by
  have : Silent nextDefinition := .of_walks walks_nextDefinition
  refine (reads_isAt .endOfText).step_fails (Fails.bind (fails_many ?_))
  refine reads_current?.fails ?_
  rintro _ ⟨t, rfl, ht⟩
  have hkind : t.kind = .name := ht.kind
  have hdefinition : definition "type" = typeDefinition .object := rfl
  simp only [hkind, ht.text, hdefinition]
  exact (fails_typeDefinition h hdeep).bind

end Deep

end SchemaLint.Sdl.Parser

namespace SchemaLint

open Sdl Source Parser

/-! ## The round trip -/

/-- The text of a draft has the words of its meaning, with no comment line among them. -/
theorem shows_render {levels : Nat} {s : SchemaDraft} {xs : List Definition}
    (hs : ∀ d ∈ s.definitions, d.WellFormed levels)
    (h : List.Forall₂ DefinitionDraft.Means s.definitions xs) :
    maskCommentLines s.render = s.render ∧ lexicalFaults (lexemes s.render) = [] ∧
      (State.start (tokens s.render)).Shows (xs.flatMap Definition.words ++ [.ending]) := by
  have htext : s.render.toList =
      ("\n\n".intercalate (s.definitions.map (·.render))).toList ++ ['\n'] := by
    simp [SchemaDraft.render]
  have hwritten := written_definitions hs h
  rw [← htext] at hwritten
  exact ⟨hwritten.maskCommentLines_eq, hwritten.lexes 0 _ [] fun _ => rfl⟩

/-- Reading the text of a draft gives back what the draft means. -/
theorem parse_render (path : String) {s : SchemaDraft} (hne : s.definitions ≠ [])
    (hs : ∀ d ∈ s.definitions, d.WellFormed levelLimit) :
    (SchemaDocument.parse path s.render).syntaxErrors = [] ∧
      List.Forall₂ DefinitionDraft.Means s.definitions
        (SchemaDocument.parse path s.render).definitions := by
  obtain ⟨xs, h⟩ := exists_forall₂ fun d hd => (hs d hd).exists_means
  obtain ⟨hmask, hlexical, hshows⟩ := shows_render hs h
  obtain ⟨hmeans, -, hfaults⟩ := reads_document hs h hne _ hshows
  rw [syntaxErrors_eq_nil_iff, parse_definitions, hmask]
  exact ⟨(read_faults_eq_nil_iff _).mpr ⟨hlexical, hfaults⟩, hmeans⟩

/-- One definition of most kinds, with every kind of part. -/
def shelfDraft : SchemaDraft where
  definitions :=
    [.fielded .object "Query" (some "The root query") ["@key(fields: \"isbn\")"]
        [⟨"books", "[Book!]!", some "What stands there", [⟨"first", "Int", some "How many"⟩],
          ["@deprecated"]⟩],
      .fielded .extension "Book" none [] [⟨"isbn", "ID", none, [], []⟩],
      .enum "Cover" none [⟨"HARD", some "With boards", []⟩],
      .input "Filter" none [⟨"cover", "Cover", none⟩],
      .union "Item" none ["Book", "Chart"],
      .scalar "Date" (some "A day")]

theorem wellFormed_shelfDraft : ∀ d ∈ shelfDraft.definitions, d.WellFormed levelLimit := by
  have hnone : IsDescription none := by simp [IsDescription]
  have hsome {text : String} (hplain : IsPlain text) (hink : ¬ text.toList.all isIndent = true) :
      IsDescription (some text) := by
    rintro _ ⟨rfl⟩
    exact ⟨hplain, by simpa using hink⟩
  have hnamed {name : String} (h : isName name = true) :
      ∃ type, Spells name.toList type ∧ type.Fits levelLimit := ⟨_, spells_name h, .named _ _⟩
  have hbook : Spells ("Book".toList ++ ['!']) (.nonNull (.named "Book")) :=
    .nonNull (spells_name (by decide)) (by simp) .nil
  have hbooks : Spells "[Book!]!".toList (.nonNull (.list (.nonNull (.named "Book")))) := by
    simpa using Spells.nonNull (.list .nil hbook .nil) (by simp) .nil
  have hfits : TypeRef.Fits levelLimit (.nonNull (.list (.nonNull (.named "Book")))) :=
    .nonNull (.list (.nonNull (.named _ _) (by simp))) (by simp)
  have hkey := @DirectiveText.argument ⟨"key", [⟨"fields", .string "isbn"⟩], 0⟩ "fields" "isbn"
    (by decide) (by decide) (by decide) rfl
  have hdeprecated := @DirectiveText.bare ⟨"deprecated", [], 0⟩ (by decide) rfl
  have hfirst : InputDraft.WellFormed levelLimit ⟨"first", "Int", some "How many"⟩ :=
    ⟨by decide, hnamed (by decide), hsome (by decide) (by decide)⟩
  simp only [shelfDraft, List.forall_mem_cons, List.not_mem_nil, false_imp_iff, implies_true,
    and_true]
  refine ⟨⟨by decide, fun _ => hsome (by decide) (by decide), ?_, by simp, ?_⟩,
    ⟨by decide, by simp, by simp, by simp, ?_⟩, ⟨by decide, hnone, by simp, ?_⟩,
    ⟨by decide, hnone, by simp, ?_⟩, ⟨by decide, hnone, by simp, by decide⟩, by decide,
    hsome (by decide) (by decide)⟩ <;> refine List.forall_mem_singleton.mpr ?_
  · exact ⟨_, by simpa [quoted] using hkey⟩
  · refine ⟨by decide, ⟨_, hbooks, hfits⟩, hsome (by decide) (by decide), ?_, ?_⟩
    · exact List.forall_mem_singleton.mpr hfirst
    · exact List.forall_mem_singleton.mpr ⟨_, by simpa using hdeprecated⟩
  · exact ⟨by decide, hnamed (by decide), hnone, by simp, by simp⟩
  · exact ⟨by decide, by decide, hsome (by decide) (by decide), by simp⟩
  · exact ⟨by decide, hnamed (by decide), hnone⟩

theorem parse_render_shelfDraft :
    .union "Item" none ["Book", "Chart"] ∈ shelfDraft.definitions ∧
      (∀ d ∈ shelfDraft.definitions, d.WellFormed levelLimit) ∧
      (SchemaDocument.parse "schema.graphql" shelfDraft.render).syntaxErrors = [] ∧
      List.Forall₂ DefinitionDraft.Means shelfDraft.definitions
        (SchemaDocument.parse "schema.graphql" shelfDraft.render).definitions :=
  ⟨by decide, wellFormed_shelfDraft, parse_render "schema.graphql" (by decide) wellFormed_shelfDraft⟩

/-! ## The limit is sharp -/

/-- Lists in lists, so many deep. -/
def Sdl.TypeRef.nested (name : String) : Nat → TypeRef
  | 0 => .named name
  | n + 1 => .list (nested name n)

theorem fits_nested_iff {name : String} {n levels : Nat} :
    (TypeRef.nested name n).Fits levels ↔ n ≤ levels := by
  induction n generalizing levels with
  | zero => exact iff_of_true (.named levels name) (Nat.zero_le levels)
  | succ n ih =>
    constructor
    · intro h
      cases h with
      | list h => exact Nat.succ_le_succ (ih.mp h)
    · intro h
      obtain ⟨levels, rfl⟩ := Nat.exists_eq_succ_of_ne_zero (Nat.ne_zero_of_lt h)
      exact .list (ih.mpr (Nat.le_of_succ_le_succ h))

def nestedText (name : String) (n : Nat) : List Char :=
  List.replicate n '[' ++ (name.toList ++ List.replicate n ']')

theorem spells_nested {name : String} (h : isName name = true) (n : Nat) :
    Spells (nestedText name n) (.nested name n) := by
  induction n with
  | zero => simpa [nestedText, TypeRef.nested] using spells_name h
  | succ n ih =>
    have htext : nestedText name (n + 1) = [] ++ '[' :: (nestedText name n ++ [']']) := by
      rw [nestedText, List.replicate_succ, List.replicate_succ']
      simp [nestedText]
    rw [htext]
    exact .list .nil ih .nil

/-- One field, of a type that nests so many lists. -/
def nestedDraft (n : Nat) : SchemaDraft where
  definitions :=
    [.fielded .object "Query" none []
      [⟨"deep", String.ofList (nestedText "Int" n), none, [], []⟩]]

theorem wellFormed_nestedDraft (n : Nat) : ∀ d ∈ (nestedDraft n).definitions, d.WellFormed n := by
  have hspells := @spells_nested "Int" (by decide) n
  have hname : isName "deep" = true := by decide
  refine List.forall_mem_singleton.mpr ⟨by decide, by simp [IsDescription], by simp, by simp, ?_⟩
  refine List.forall_mem_singleton.mpr ⟨hname, ?_, by simp [IsDescription], by simp, by simp⟩
  exact ⟨.nested "Int" n, by simpa using hspells, fits_nested_iff.mpr (Nat.le_refl n)⟩

/-- What the draft means, all positions 0. -/
def nestedDefinition (n : Nat) : Definition where
  isExtension := false
  description := none
  name := ⟨"Query", 0⟩
  directives := []
  body := .object [⟨none, ⟨"deep", 0⟩, [], .nested "Int" n, []⟩]
  offset := 0

theorem means_nestedDefinition (n : Nat) :
    List.Forall₂ DefinitionDraft.Means (nestedDraft n).definitions [nestedDefinition n] := by
  refine .cons (.fielded rfl rfl rfl .nil rfl (.cons ⟨rfl, rfl, .nil, ?_, .nil⟩ .nil)) .nil
  simpa using @spells_nested "Int" (by decide) n

theorem words_nestedDefinition (n : Nat) (ws : List Word) :
    (nestedDefinition n).words ++ ws = ⟨.name, "type", true⟩ :: .ofName "Query" ::
      .mark .braceL '\x7b' :: .ofName "deep" :: .mark .colon ':' ::
        ((TypeRef.nested "Int" n).words ++ .mark .braceR '\x7d' :: ws) := by
  simp [nestedDefinition, Definition.words, Definition.headWords, Definition.kind, Body.kind,
    TypeKind.keyword, Body.words, blockWords, Field.words, listWords, descriptionWords]

theorem syntaxErrors_nestedDraft (path : String) {n : Nat} (h : levelLimit < n) :
    (SchemaDocument.parse path (nestedDraft n).render).syntaxErrors ≠ [] := by
  have hdeep : ¬ (TypeRef.nested "Int" n).Fits levelLimit :=
    fun hfits => absurd (fits_nested_iff.mp hfits) (Nat.not_le_of_lt h)
  obtain ⟨hmask, -, hshows⟩ := shows_render (wellFormed_nestedDraft n) (means_nestedDefinition n)
  rw [List.flatMap_singleton, words_nestedDefinition] at hshows
  intro hnil
  rw [syntaxErrors_eq_nil_iff, hmask, read_faults_eq_nil_iff] at hnil
  exact fails_document (fits_nested_iff.mpr (Nat.le_refl n)) hdeep _ (State.honest_start _) hshows
    hnil.2

theorem parse_render_nestedDraft :
    (nestedDraft 501).definitions ≠ [] ∧
      (∀ d ∈ (nestedDraft 501).definitions, d.WellFormed 501) ∧
      (SchemaDocument.parse "schema.graphql" (nestedDraft 501).render).syntaxErrors ≠ [] :=
  ⟨List.cons_ne_nil _ _, wellFormed_nestedDraft 501, syntaxErrors_nestedDraft _ (by decide)⟩

end SchemaLint
