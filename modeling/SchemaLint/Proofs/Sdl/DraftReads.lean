import SchemaLint.Proofs.Sdl.DraftWords

/-!
# Drafts are read as what they mean

The productions go through the words of the definitions that drafts mean, one after the
other. What comes out may differ from these definitions in positions only, so it is what
the drafts mean as well.
-/

namespace SchemaLint.Sdl.Parser

variable {w v : Word} {ws vs : List Word}

/-! ## Directives -/

theorem reads_value {text : String} (h : IsPlain text) (constant : Bool) (levels : Nat)
    (pass : Bool) :
    Reads (.string (quoted text) :: ws) ws (value constant levels pass)
      (· = some (.string text)) := by
  have hwith (inner : Option (Parser (Option Value))) :
      Reads (.string (quoted text) :: ws) ws (valueWith constant inner pass)
        (· = some (.string text)) := by
    refine reads_current?.bind ?_
    rintro _ ⟨t, rfl, ht⟩
    have hkind : t.kind = .string := ht.kind
    have htext : stringValue t.text = text := by
      rw [ht.text]
      exact stringValue_quoted h
    simp only [hkind, htext]
    exact reads_advance.bind fun _ _ => .pure rfl
  cases levels with
  | zero => exact hwith _
  | succ levels => exact hwith _

theorem reads_argument {a : Argument} (h : a.IsQuoted) (constant : Bool) (levels : Nat) :
    Reads (a.words ++ ws) ws (argument constant levels) (· = some a) := by
  obtain ⟨name, _⟩ := a
  obtain ⟨text, rfl, hplain⟩ := h
  refine (reads_name rfl).bind ?_
  rintro _ ⟨n, rfl, hn⟩
  refine (reads_skip_true rfl).step ((reads_value hplain constant levels false).step (.pure ?_))
  show some (Argument.mk n.text (.string text)) = _
  rw [hn]
  rfl

theorem reads_arguments {as : List Argument} (h : ∀ a ∈ as, a.IsQuoted) (hne : as ≠ [])
    (constant : Bool) (levels : Nat) :
    Reads (listWords Argument.words as ++ ws) ws (arguments constant levels) (· = as) := by
  have hsame : List.Forall₂ (fun a b => a = b ∧ Argument.IsQuoted a) as as :=
    List.forall₂_same.mpr fun a ha => ⟨rfl, h a ha⟩
  have hmany : Reads (as.flatMap Argument.words ++ .mark .parenR ')' :: ws)
      (.mark .parenR ')' :: ws)
      (many do
        if ← isAt .name then return some (← argument constant levels) else return none)
      (List.Forall₂ (fun a o => ∃ b, o = some b ∧ a = b) as) := by
    refine reads_many (fun _ => True) hsame ?_ (fun _ _ _ => ⟨_, _, rfl, trivial⟩) trivial ?_
    · rintro a _ w ws ⟨rfl, ha⟩ -
      refine (reads_isAt .name).step ?_
      exact (reads_argument ha constant levels).step (.pure ⟨_, rfl, a, rfl, rfl⟩)
    · exact (reads_isAt .name).step (.pure rfl)
  obtain ⟨a, as, rfl⟩ := List.exists_cons_of_ne_nil hne
  have hwords : listWords Argument.words (a :: as) ++ ws = .mark .parenL '(' ::
      ((a :: as).flatMap Argument.words ++ .mark .parenR ')' :: ws) := by
    simp [listWords]
  rw [hwords]
  refine reads_advance.bind fun _ _ => (reads_isAt .name).step ?_
  refine hmany.bind fun os hos => (reads_expect rfl).bind fun _ _ => .pure ?_
  exact (List.forall₂_eq_eq_eq ▸ forall₂_filterMap_id hos : (a :: as) = _).symm

/-- A list in parentheses, or no list at all. -/
theorem reads_optionalList {α β κ : Type} {words : κ → List Word} {xs : List κ}
    {p : Parser (List α)} {f : List α → Parser β} {P : List α → Prop} {Q : β → Prop}
    {us : List Word} (hv : v.kind ≠ .parenL) (hnil : xs = [] → P [])
    (hlist : xs ≠ [] → Reads (listWords words xs ++ v :: vs) (v :: vs) p P)
    (hf : ∀ as, P as → Reads (v :: vs) us (f as) Q) :
    Reads (listWords words xs ++ v :: vs) us
      (isAt .parenL >>= fun b => if b = true then p >>= f else pure [] >>= f) Q := by
  cases xs with
  | nil =>
    refine (reads_isAt .parenL).step ?_
    rw [if_neg (by simpa using hv)]
    exact Reads.bind (.pure (hnil rfl)) hf
  | cons x xs => exact (reads_isAt .parenL).step ((hlist (List.cons_ne_nil x xs)).bind hf)

theorem reads_directive {text : String} {d : Directive} (h : DirectiveText text d)
    (hw : w.kind ≠ .parenL) (constant : Bool) (levels : Nat) :
    Reads (d.words ++ w :: ws) (w :: ws) (directive constant levels)
      fun o => ∃ d', o = some d' ∧ DirectiveText text d' := by
  refine reads_position.bind fun offset _ => reads_advance.bind fun _ _ => (reads_name rfl).bind ?_
  rintro _ ⟨n, rfl, hn⟩
  refine reads_optionalList hw (fun hnil => hnil.symm)
    (fun hne => reads_arguments h.isQuoted hne constant levels) ?_
  rintro _ rfl
  exact .pure ⟨_, rfl, h.of_same hn rfl⟩

theorem reads_directives {texts : List String} {ds : List Directive}
    (h : List.Forall₂ DirectiveText texts ds) (hat : v.kind ≠ .atSign) (hparen : v.kind ≠ .parenL)
    (constant : Bool) (levels : Nat) :
    Reads (ds.flatMap Directive.words ++ v :: vs) (v :: vs) (directives constant levels)
      (List.Forall₂ DirectiveText texts) := by
  refine Reads.bind (reads_many (·.kind ≠ .parenL) h ?_ (fun _ _ _ => ⟨_, _, rfl, by simp⟩) hparen
    ?_) fun os hos => .pure (forall₂_filterMap_id hos)
  · intro text d w ws hd hw
    refine (reads_isAt .atSign).step ?_
    exact (reads_directive hd hw constant levels).bind fun o ho => .pure ⟨o, rfl, ho⟩
  · refine (reads_isAt .atSign).step ?_
    rw [if_neg (by simpa using hat)]
    exact .pure rfl

/-! ## Members -/

theorem EndsMember.not_bang (h : EndsMember w) : w.kind ≠ .bang ∧ w.kind ≠ .equals ∧
    w.kind ≠ .atSign ∧ w.kind ≠ .parenL := by
  rcases h with (h | h) | h | h <;> simp [h]

theorem startsMember_words (description : Option String) (name : String) (ws : List Word) :
    ∃ v vs, descriptionWords description ++ .ofName name :: ws = v :: vs ∧ StartsMember v := by
  cases description with
  | none => exact ⟨_, _, rfl, .inl rfl⟩
  | some text => exact ⟨_, _, rfl, .inr rfl⟩

theorem reads_defaultValue (hw : w.kind ≠ .equals) :
    Reads (w :: ws) (w :: ws) (defaultValue true) (· = true) :=
  (reads_skip_false hw).step (.pure rfl)

theorem reads_inputValue {d : InputDraft} {x : InputValue} (h : d.WellFormed levelLimit ∧ d.Means x)
    (hw : EndsMember w) :
    Reads (x.words ++ w :: ws) (w :: ws) inputValue fun o => ∃ y, o = some y ∧ d.Means y := by
  obtain ⟨hd, hx⟩ := h
  obtain ⟨hbang, hequals, hat, hparen⟩ := hw.not_bang
  rw [InputValue.words, hx.description, hx.name, List.append_assoc]
  refine (reads_description? hd.description (by simp)).step ((reads_name rfl).bind ?_)
  rintro _ ⟨n, rfl, hn⟩
  refine (reads_skip_true rfl).step ((reads_isAtType x.type).step ?_)
  refine (reads_typeRef (hd.fits hx) hbang).step ((reads_defaultValue hequals).step ?_)
  refine (reads_directives .nil hat hparen true levelLimit).bind fun ds hds => .pure ?_
  exact ⟨_, rfl, rfl, hn, hx.type, List.forall₂_nil_left_iff.mp hds⟩

theorem startsMember_inputValue (d : InputDraft) (x : InputValue)
    (_ : d.WellFormed levelLimit ∧ d.Means x) : ∃ w ws, x.words = w :: ws ∧ StartsMember w :=
  startsMember_words _ _ _

theorem reads_argumentDefinitions {ds : List InputDraft} {xs : List InputValue}
    (hds : ∀ d ∈ ds, d.WellFormed levelLimit) (h : List.Forall₂ InputDraft.Means ds xs)
    (hne : xs ≠ []) :
    Reads (listWords InputValue.words xs ++ ws) ws argumentDefinitions
      (List.Forall₂ InputDraft.Means ds) := by
  have hwords : listWords InputValue.words xs ++ ws = .mark .parenL '(' ::
      (xs.flatMap InputValue.words ++ .mark .parenR ')' :: ws) := by
    cases xs with
    | nil => exact absurd rfl hne
    | cons x xs => simp [listWords]
  rw [hwords]
  exact reads_enclosed ((List.forall₂_and_left _ _).mpr ⟨hds, h⟩) (fun _ _ _ _ => reads_inputValue)
    startsMember_inputValue rfl (.inr rfl) hne

theorem reads_field {d : FieldDraft} {x : Field} (h : d.WellFormed levelLimit ∧ d.Means x)
    (hw : EndsMember w) :
    Reads (x.words ++ w :: ws) (w :: ws) field fun o => ∃ y, o = some y ∧ d.Means y := by
  obtain ⟨hd, hx⟩ := h
  obtain ⟨hbang, -, hat, hparen⟩ := hw.not_bang
  have hwords : x.words ++ w :: ws = descriptionWords d.description ++ .ofName d.name ::
      (listWords InputValue.words x.arguments ++ .mark .colon ':' ::
        (x.type.words ++ (x.directives.flatMap Directive.words ++ w :: ws))) := by
    simp [Field.words, hx.description, hx.name]
  rw [hwords]
  refine (reads_description? hd.description (by simp)).step ((reads_name rfl).bind ?_)
  rintro _ ⟨n, rfl, hn⟩
  refine reads_optionalList (by simp) (fun hnil => hnil ▸ hx.arguments)
    (fun hne => reads_argumentDefinitions hd.arguments hx.arguments hne) fun args hargs => ?_
  obtain ⟨u, us, hnext, hu⟩ : ∃ u us, x.directives.flatMap Directive.words ++ w :: ws = u :: us ∧
      u.kind ≠ .bang :=
    exists_first (fun _ _ _ => ⟨_, _, rfl, by simp⟩) hbang hx.directives
  have htype : Reads (x.type.words ++ u :: us) (u :: us) typeRef (· = some x.type) :=
    reads_typeRef (hd.fits hx) hu
  rw [← hnext] at htype
  refine (reads_skip_true rfl).step ((reads_isAtType x.type).step (htype.step ?_))
  refine (reads_directives hx.directives hat hparen true levelLimit).bind fun ds hds => .pure ?_
  exact ⟨_, rfl, rfl, hn, hargs, hx.type, hds⟩

theorem reads_enumValueName {name : String} (h : name ∉ reservedValues) :
    Reads (.ofName name :: ws) ws enumValueName
      fun o => ∃ n : Name, o = some n ∧ n.text = name := by
  refine reads_current?.bind ?_
  rintro _ ⟨t, rfl, ht⟩
  have hkind : t.kind = .name := ht.kind
  have htext : ¬ reservedValues.contains t.text = true := by
    rw [ht.text, List.contains_iff_mem]
    exact h
  show Reads _ _ (if t.kind = .name then _ else _) _
  rw [if_pos hkind, if_neg htext]
  exact reads_name rfl

theorem reads_enumValue {d : EnumValueDraft} {x : EnumValue} (h : d.WellFormed ∧ d.Means x)
    (hw : EndsMember w) :
    Reads (x.words ++ w :: ws) (w :: ws) enumValue fun o => ∃ y, o = some y ∧ d.Means y := by
  obtain ⟨hd, hx⟩ := h
  obtain ⟨-, -, hat, hparen⟩ := hw.not_bang
  rw [EnumValue.words, hx.description, hx.name, List.append_assoc]
  refine (reads_description? hd.description (by simp)).step
    ((reads_enumValueName hd.unreserved).bind ?_)
  rintro _ ⟨n, rfl, hn⟩
  refine (reads_directives hx.directives hat hparen true levelLimit).bind fun ds hds => .pure ?_
  exact ⟨_, rfl, rfl, hn, hds⟩

/-! ## Definitions -/

/-- What stands behind a definition. -/
def EndsDefinition (w : Word) : Prop := w.kind = .name ∨ w.kind = .string ∨ w.kind = .endOfText

theorem EndsDefinition.not_part (h : EndsDefinition w) :
    w.kind ≠ .atSign ∧ w.kind ≠ .pipe := by
  rcases h with h | h | h <;> simp [h]

section Parts

variable {α : Type} {part : Parser (List α)} {P : List α → Prop} {opener : TokenKind}

theorem reads_optional_true (h : w.kind = opener) (hpart : Reads (w :: ws) vs part P) :
    Reads (w :: ws) vs (optional opener part) fun r => r.1 = true ∧ P r.2 := by
  refine (reads_isAt opener).step ?_
  rw [if_pos (by simpa using h)]
  exact hpart.bind fun as has => .pure ⟨rfl, has⟩

theorem reads_optional_false (h : w.kind ≠ opener) :
    Reads (w :: ws) (w :: ws) (optional opener part) (· = (false, [])) := by
  refine (reads_isAt opener).step ?_
  rw [if_neg (by simpa using h)]
  exact .pure rfl

end Parts

theorem reads_optionalDirectives {texts : List String} {ds : List Directive}
    (h : List.Forall₂ DirectiveText texts ds) (hat : v.kind ≠ .atSign) (hparen : v.kind ≠ .parenL) :
    Reads (ds.flatMap Directive.words ++ v :: vs) (v :: vs) (optional .atSign constantDirectives)
      fun r => List.Forall₂ DirectiveText texts r.2 := by
  have hread : Reads (ds.flatMap Directive.words ++ v :: vs) (v :: vs) constantDirectives _ :=
    reads_directives h hat hparen true levelLimit
  cases h with
  | nil => exact (reads_optional_false hat).imp fun _ hr => hr ▸ .nil
  | cons => exact (reads_optional_true rfl hread).imp fun _ hr => hr.2

/-- Members between braces, as a part of a definition. -/
theorem reads_optionalBlock {ι κ α : Type} {R : ι → κ → Prop} {Q : ι → α → Prop}
    {words : κ → List Word} {item : Parser (Option α)} {missing : GrammarFault} {ds : List ι}
    {xs : List κ} (h : List.Forall₂ R ds xs)
    (hitem : ∀ d x w ws, R d x → EndsMember w →
      Reads (words x ++ w :: ws) (w :: ws) item fun o => ∃ a, o = some a ∧ Q d a)
    (hfirst : ∀ d x, R d x → ∃ w ws, words x = w :: ws ∧ StartsMember w) (hne : ds ≠ []) :
    Reads (blockWords (xs.flatMap words) ++ ws) ws (optional .braceL (enclosed missing .brace item))
      fun r => r.1 = true ∧ List.Forall₂ Q ds r.2 := by
  have hwords : blockWords (xs.flatMap words) ++ ws =
      .mark .braceL '\x7b' :: (xs.flatMap words ++ .mark .braceR '\x7d' :: ws) := by
    simp [blockWords]
  have hxs : xs ≠ [] := by
    rintro rfl
    exact hne (List.forall₂_nil_right_iff.mp h)
  rw [hwords]
  exact reads_optional_true rfl (reads_enclosed h hitem hfirst rfl (.inl rfl) hxs)

theorem reads_optionalImplements (h : w.text ≠ "implements") :
    Reads (w :: ws) (w :: ws) optionalImplements (· = false) := by
  refine (reads_isAtWord "implements").step ?_
  rw [if_neg (by simpa using h)]
  exact .pure rfl

theorem reads_objectParts {texts : List String} {ds : List Directive} {fields : List FieldDraft}
    {fs : List Field} (hds : List.Forall₂ DirectiveText texts ds)
    (hwf : ∀ f ∈ fields, f.WellFormed levelLimit)
    (hfields : List.Forall₂ FieldDraft.Means fields fs) (hne : fields ≠ []) (body : List Field → Body) :
    Reads (ds.flatMap Directive.words ++ (blockWords (fs.flatMap Field.words) ++ ws)) ws
      (objectParts body) fun parts => parts.present = true ∧
        List.Forall₂ DirectiveText texts parts.directives ∧
        ∃ ys, parts.body = body ys ∧ List.Forall₂ FieldDraft.Means fields ys := by
  obtain ⟨u, us, hnext, hu⟩ : ∃ u us, ds.flatMap Directive.words ++
      (blockWords (fs.flatMap Field.words) ++ ws) = u :: us ∧ u.text ≠ "implements" :=
    exists_first (fun _ _ _ => ⟨_, _, rfl, by decide⟩) (by decide) hds
  have himplements : Reads (u :: us) (u :: us) optionalImplements _ := reads_optionalImplements hu
  rw [← hnext] at himplements
  refine himplements.step ((reads_optionalDirectives hds (by decide) (by decide)).bind ?_)
  rintro ⟨d, ds'⟩ hds'
  refine (reads_optionalBlock ((List.forall₂_and_left _ _).mpr ⟨hwf, hfields⟩)
    (fun _ _ _ _ => reads_field) (fun _ _ _ => startsMember_words _ _ _) hne).bind ?_
  rintro ⟨f, fs'⟩ ⟨rfl, hfs'⟩
  exact .pure ⟨by simp, hds', fs', rfl, hfs'⟩

theorem reads_namedType {name : String} (missing : GrammarFault) :
    Reads (.ofName name :: ws) ws (namedType missing) (· = some name) := by
  refine (reads_nameOr missing rfl).bind ?_
  rintro _ ⟨n, rfl, hn⟩
  exact .pure (congrArg some hn)

theorem reads_unionMembers {names : List String} (hne : names ≠ []) (hw : w.kind ≠ .pipe) :
    Reads (.mark .equals '=' :: (memberWords names ++ w :: ws)) (w :: ws) unionMembers
      (· = names) := by
  obtain ⟨n, names, rfl⟩ := List.exists_cons_of_ne_nil hne
  have hsame : List.Forall₂ Eq names names := List.forall₂_same.mpr fun _ _ => rfl
  refine reads_advance.bind fun _ _ => (reads_skip_false (by simp)).step ?_
  refine (reads_namedType .noUnionMember).step ?_
  refine Reads.bind (reads_many (fun _ => True) hsame (Q := fun a o => ∃ b, o = some b ∧ a = b) ?_
    (fun _ _ _ => ⟨_, _, rfl, trivial⟩) trivial ?_) fun os hos => .pure ?_
  · rintro a _ w ws rfl -
    refine (reads_skip_true rfl).step ?_
    exact (reads_namedType .noUnionMember).step (.pure ⟨_, rfl, a, rfl, rfl⟩)
  · exact (reads_skip_false hw).step (.pure rfl)
  · exact (List.forall₂_eq_eq_eq ▸ forall₂_filterMap_id (.cons ⟨n, rfl, rfl⟩ hos) :
      n :: names = _).symm

/-- With these parts behind its name, a definition is what the draft means, whatever the
positions. -/
def Completes (d : DefinitionDraft) (x : Definition) (parts : Parts) : Prop :=
  (x.isExtension = true → parts.present = true) ∧
    ∀ (n : Name) (offset : Nat), n.text = x.name.text →
      d.Means ⟨x.isExtension, x.description, n, parts.directives, parts.body, offset⟩

theorem reads_typeParts {d : DefinitionDraft} {x : Definition} (hd : d.WellFormed levelLimit)
    (h : d.Means x) (hw : EndsDefinition w) :
    Reads (x.directives.flatMap Directive.words ++ (x.body.words ++ w :: ws)) (w :: ws)
      (typeParts x.kind) (Completes d x) := by
  obtain ⟨hat, hpipe⟩ := hw.not_part
  cases h with
  | @fielded form name description directives fields fs _ hextension hdescription hname hdirectives
      hbody hfields =>
    obtain ⟨-, -, -, hne, hwf⟩ := hd
    have hparts (body : List Field → Body) (h : ∀ fs, body fs = form.body fs) :
        Reads (x.directives.flatMap Directive.words ++
          (blockWords (fs.flatMap Field.words) ++ w :: ws)) (w :: ws) (objectParts body)
          (Completes (.fielded form name description directives fields) x) := by
      refine (reads_objectParts hdirectives hwf hfields hne body).imp ?_
      rintro parts ⟨hpresent, hds, ys, hys, hmeans⟩
      exact ⟨fun _ => hpresent, fun n offset hn => .fielded hextension hdescription (hn.trans hname)
        hds (hys.trans (h ys)) hmeans⟩
    rw [Definition.kind, hbody]
    cases form with
    | object => exact hparts _ fun _ => rfl
    | interface => exact hparts _ fun _ => rfl
    | extension => exact hparts _ fun _ => rfl
  | @enum name description values vs _ hextension hdescription hname hdirectives hbody hvalues =>
    obtain ⟨-, -, hne, hwf⟩ := hd
    rw [Definition.kind, hbody, hdirectives]
    refine (reads_optional_false (by decide)).step ((reads_optionalBlock
      ((List.forall₂_and_left _ _).mpr ⟨hwf, hvalues⟩) (fun _ _ _ _ => reads_enumValue)
      (fun _ _ _ => startsMember_words _ _ _) hne).bind ?_)
    rintro ⟨-, ys⟩ ⟨rfl, hys⟩
    exact .pure ⟨fun _ => rfl, fun n offset hn => .enum hextension hdescription (hn.trans hname) rfl
      rfl hys⟩
  | @input name description fields fs _ hextension hdescription hname hdirectives hbody hfields =>
    obtain ⟨-, -, hne, hwf⟩ := hd
    rw [Definition.kind, hbody, hdirectives]
    refine (reads_optional_false (by decide)).step ((reads_optionalBlock
      ((List.forall₂_and_left _ _).mpr ⟨hwf, hfields⟩) (fun _ _ _ _ => reads_inputValue)
      (fun _ _ _ => startsMember_words _ _ _) hne).bind ?_)
    rintro ⟨-, ys⟩ ⟨rfl, hys⟩
    exact .pure ⟨fun _ => rfl, fun n offset hn => .input hextension hdescription (hn.trans hname)
      rfl rfl hys⟩
  | @union name description members _ hextension hdescription hname hdirectives hbody =>
    obtain ⟨-, -, hne, -⟩ := hd
    rw [Definition.kind, hbody, hdirectives]
    refine (reads_optional_false (by decide)).step
      ((reads_optional_true rfl (reads_unionMembers hne hpipe)).bind ?_)
    rintro ⟨-, -⟩ ⟨rfl, rfl⟩
    exact .pure ⟨fun _ => rfl, fun n offset hn => .union hextension hdescription (hn.trans hname)
      rfl rfl⟩
  | @scalar name description _ hextension hdescription hname hdirectives hbody =>
    rw [Definition.kind, hbody, hdirectives]
    refine (reads_optional_false hat).step (.pure ⟨fun h => ?_, fun n offset hn => ?_⟩)
    · rw [hextension] at h
      cases h
    · exact .scalar hextension hdescription (hn.trans hname) rfl rfl

theorem isDescription_of_means {d : DefinitionDraft} {x : Definition} (hd : d.WellFormed levelLimit)
    (h : d.Means x) : IsDescription x.description := by
  cases h with
  | @fielded form _ _ _ _ _ _ _ hdescription =>
    rw [hdescription]
    split
    · simp [IsDescription]
    · next hform => exact hd.2.1 hform
  | enum _ hdescription => exact hdescription ▸ hd.2.1
  | input _ hdescription => exact hdescription ▸ hd.2.1
  | union _ hdescription => exact hdescription ▸ hd.2.1
  | scalar _ hdescription => exact hdescription ▸ hd.2

theorem description_of_extension {d : DefinitionDraft} {x : Definition} (h : d.Means x)
    (hextension : x.isExtension = true) : x.description = none := by
  cases h with
  | fielded hform hdescription =>
    rw [hdescription, if_pos (of_decide_eq_true (hform.symm.trans hextension))]
  | enum hnot | input hnot | union hnot | scalar hnot => cases hextension.symm.trans hnot

theorem ofKeyword?_keyword (kind : TypeKind) : TypeKind.ofKeyword? kind.keyword = some kind := by
  cases kind <;> decide

section Definition

variable {d : DefinitionDraft} {x : Definition} (hd : d.WellFormed levelLimit) (h : d.Means x)
  (hw : EndsDefinition w)
include hd h hw

theorem reads_typeDefinition (hextension : x.isExtension = false) :
    Reads (x.words ++ w :: ws) (w :: ws) (typeDefinition x.kind)
      fun o => ∃ y, o = some y ∧ d.Means y := by
  rw [Definition.words_of_plain hextension]
  refine reads_position.bind fun offset _ =>
    (reads_description? (isDescription_of_means hd h) (by simp)).step
      ((reads_skipWord rfl).bind fun _ _ => (reads_nameOr _ rfl).bind ?_)
  rintro _ ⟨n, rfl, hn⟩
  refine (reads_typeParts hd h hw).bind fun parts hparts => .pure ⟨_, rfl, ?_⟩
  rw [← hextension]
  exact hparts.2 n offset hn

theorem reads_typeExtension (hextension : x.isExtension = true) :
    Reads (x.words ++ w :: ws) (w :: ws) (typeExtension x.kind)
      fun o => ∃ y, o = some y ∧ d.Means y := by
  rw [Definition.words_of_extension hextension]
  refine reads_position.bind fun offset _ => reads_advance.bind fun _ _ =>
    reads_advance.bind fun _ _ => (reads_name rfl).bind ?_
  rintro _ ⟨n, rfl, hn⟩
  refine (reads_typeParts hd h hw).bind fun parts hparts => ?_
  rw [if_neg (by simp [hparts.1 hextension])]
  refine .pure ⟨_, rfl, ?_⟩
  rw [← hextension, ← description_of_extension h hextension]
  exact hparts.2 n offset hn

theorem reads_extension (hextension : x.isExtension = true) :
    Reads (x.words ++ w :: ws) (w :: ws) extension fun o => ∃ y, o = some y ∧ d.Means y := by
  have hread := @reads_typeExtension w ws d x hd h hw hextension
  rw [Definition.words_of_extension hextension] at hread ⊢
  refine (reads_second? rfl).bind fun o ho => ?_
  simp only [ho, Option.getD_some, ofKeyword?_keyword]
  exact hread

theorem reads_definition (hextension : x.isExtension = false) :
    Reads (x.words ++ w :: ws) (w :: ws) (definition x.kind.keyword)
      fun o => ∃ y, o = some y ∧ d.Means y := by
  rw [definition, ofKeyword?_keyword]
  exact reads_typeDefinition hd h hw hextension

/-- The word that tells the kind is the first, or the second behind a description. -/
theorem reads_nextDefinition :
    Reads (x.words ++ w :: ws) (w :: ws) nextDefinition
      fun o => ∃ o', o = some o' ∧ ∃ y, o' = some y ∧ d.Means y := by
  cases hextension : x.isExtension with
  | true =>
    have hread := @reads_extension w ws d x hd h hw hextension
    have hdefinition : definition "extend" = extension := rfl
    rw [Definition.words_of_extension hextension] at hread ⊢
    refine reads_current?.bind ?_
    rintro _ ⟨t, rfl, ht⟩
    have hkind : t.kind = .name := ht.kind
    simp only [hkind, ht.text, hdefinition]
    exact hread.bind fun o ho => .pure ⟨o, rfl, ho⟩
  | false =>
    have hread := @reads_definition w ws d x hd h hw hextension
    rw [Definition.words_of_plain hextension] at hread ⊢
    cases hdescription : x.description with
    | none =>
      rw [hdescription] at hread
      refine reads_current?.bind ?_
      rintro _ ⟨t, rfl, ht⟩
      have hkind : t.kind = .name := ht.kind
      simp only [hkind, ht.text]
      exact hread.bind fun o ho => .pure ⟨o, rfl, ho⟩
    | some text =>
      rw [hdescription] at hread
      refine reads_current?.bind ?_
      rintro _ ⟨t, rfl, ht⟩
      have hkind : t.kind = .string := ht.kind
      simp only [hkind]
      refine (reads_second? rfl).bind fun o ho => ?_
      rw [ho]
      exact hread.bind fun o ho => .pure ⟨o, rfl, ho⟩

end Definition

theorem reads_nextDefinition_ending :
    Reads [.ending] [.ending] nextDefinition (· = none) := by
  refine reads_current?.bind ?_
  rintro _ ⟨t, rfl, ht⟩
  have hkind : t.kind = .endOfText := ht.kind
  simp only [hkind]
  exact .pure rfl

/-- The words of one or more definitions are read to what the drafts mean. -/
theorem reads_document {ds : List DefinitionDraft} {xs : List Definition}
    (hds : ∀ d ∈ ds, d.WellFormed levelLimit) (h : List.Forall₂ DefinitionDraft.Means ds xs)
    (hne : ds ≠ []) :
    Reads (xs.flatMap Definition.words ++ [.ending]) [.ending] document
      (List.Forall₂ DefinitionDraft.Means ds) := by
  have hmany : Reads (xs.flatMap Definition.words ++ [.ending]) [.ending] (many nextDefinition)
      (List.Forall₂ (fun d o => ∃ y, o = some y ∧ DefinitionDraft.Means d y) ds) := by
    refine reads_many EndsDefinition ((List.forall₂_and_left _ _).mpr ⟨hds, h⟩)
      (fun d x w ws hd hw => reads_nextDefinition hd.1 hd.2 hw) (fun d x _ => ?_) (.inr (.inr rfl))
      reads_nextDefinition_ending
    obtain ⟨w, ws, hwords, hw⟩ := x.exists_words
    exact ⟨w, ws, hwords, hw.imp_right .inl⟩
  cases h with
  | nil => exact absurd rfl hne
  | @cons d x ds xs hd hrest =>
    obtain ⟨w, ws, hwords, hw⟩ := x.exists_words
    rw [List.flatMap_cons, hwords] at hmany ⊢
    refine (reads_isAt .endOfText).step ?_
    rw [if_neg (by rcases hw with hw | hw <;> simp [hw])]
    exact hmany.bind fun os hos => .pure (forall₂_filterMap_id hos)

end SchemaLint.Sdl.Parser
