import Mathlib.Data.List.Forall2
import SchemaLint.Proofs.Sdl.Reads
import SchemaLint.Sdl.Draft

/-!
# What drafts mean and how they are written

A draft holds types and directives as texts. It is well formed if these are texts of types
and directives, if its names are names, and so on; then it means a definition, which is
known but for the positions. The text of the draft is written in the words of that
definition.
-/

namespace SchemaLint.Sdl

open SchemaLint.Sdl.Parser

/-! ## Types and directives as texts -/

/-- What is ignored between words. A comment is closed by the end of its line. -/
inductive Ignored : List Char → Prop
  | nil : Ignored []
  | space {c : Char} {cs : List Char} (hc : isSpace c = true) (rest : Ignored cs) :
      Ignored (c :: cs)
  | comma {cs : List Char} (rest : Ignored cs) : Ignored (',' :: cs)
  | comment {body cs : List Char} {c : Char} (hbody : ∀ c ∈ body, isCommentEnd c = false)
      (hc : isCommentEnd c = true) (rest : Ignored cs) : Ignored ('#' :: (body ++ c :: cs))

/-- A text of a type. -/
inductive Spells : List Char → TypeRef → Prop
  | named {before behind : List Char} {name : String} (hbefore : Ignored before)
      (hname : isName name = true) (hbehind : Ignored behind) :
      Spells (before ++ (name.toList ++ behind)) (.named name)
  | list {before cs behind : List Char} {item : TypeRef} (hbefore : Ignored before)
      (hitem : Spells cs item) (hbehind : Ignored behind) :
      Spells (before ++ '[' :: (cs ++ ']' :: behind)) (.list item)
  | nonNull {cs behind : List Char} {type : TypeRef} (htype : Spells cs type)
      (hbare : ∀ t, type ≠ .nonNull t) (hbehind : Ignored behind) :
      Spells (cs ++ '!' :: behind) (.nonNull type)

/-- A text of a directive: without arguments, or with one string. -/
inductive DirectiveText : String → Directive → Prop
  | bare {d : Directive} (hname : isName d.name = true) (harguments : d.arguments = []) :
      DirectiveText ("@" ++ d.name) d
  | argument {d : Directive} {name value : String} (hname : isName d.name = true)
      (hargument : isName name = true) (hvalue : IsPlain value)
      (harguments : d.arguments = [⟨name, .string value⟩]) :
      DirectiveText ("@" ++ d.name ++ "(" ++ name ++ ": " ++ quoted value ++ ")") d

def Argument.words (a : Argument) : List Word :=
  .ofName a.name :: .mark .colon ':' ::
    match a.value with
    | .string text => [.string (quoted text)]
    | .other => []

/-- Words between parentheses, if there are any. -/
def listWords {α : Type} (words : α → List Word) : List α → List Word
  | [] => []
  | as => .mark .parenL '(' :: (as.flatMap words ++ [.mark .parenR ')'])

def Directive.words (d : Directive) : List Word :=
  .mark .atSign '@' :: .ofName d.name :: listWords Argument.words d.arguments

section Texts

variable {comma : Bool} {cs rest : List Char} {ws : List Word} {type type' : TypeRef}

theorem Written.relax (h : Written true cs ws) : Written comma cs ws := by
  generalize hb : true = b at h
  induction h with
  | nil => exact .nil
  | space hc _ ih => exact .space hc (ih hb)
  | comma hrest _ => exact .comma hrest
  | comment hbody hend _ ih => exact .comment hbody hend (ih hb)
  | word htext hscan hline hclose hrest =>
    subst hb
    exact .word htext hscan hline (fun h => absurd (hclose h) (by decide)) hrest

theorem Written.relaxed (h : Written comma cs ws) : Written false cs ws := by
  cases comma with
  | false => exact h
  | true => exact h.relax

theorem Written.spaces (h : cs.all isSpace = true) (hws : Written comma rest ws) :
    Written comma (cs ++ rest) ws := by
  induction cs with
  | nil => exact hws
  | cons c cs ih =>
    rw [List.all_cons, Bool.and_eq_true] at h
    exact .space h.1 (ih h.2)

theorem Written.ignored (h : Ignored cs) (hws : Written true rest ws) :
    Written comma (cs ++ rest) ws := by
  induction h generalizing comma with
  | nil => exact hws.relax
  | space hc _ ih => exact .space hc ih
  | comma _ ih => exact .comma ih
  | @comment body cs c hbody hc _ ih =>
    have hspace : isSpace c = true := by
      rcases (by simpa [isCommentEnd] using hc : c = '\n' ∨ c = '\r') with rfl | rfl <;> rfl
    rw [List.cons_append, List.append_assoc]
    exact .comment hbody (by rintro _ ⟨rfl⟩; exact hc) (.space hspace ih)

theorem open_ignored (h : Ignored cs) (hrest : Open rest) : Open (cs ++ rest) := by
  cases h with
  | nil => exact hrest
  | space hc _ =>
    refine open_cons ?_ _
    rcases space_cases hc with rfl | rfl | rfl | rfl | rfl <;> decide
  | comma _ => exact open_cons (by decide) _
  | comment _ _ _ => exact open_cons (by decide) _

theorem spells_name {name : String} (h : isName name = true) :
    Spells name.toList (.named name) := by
  simpa using Spells.named .nil h .nil

theorem Spells.exists_fits (h : Spells cs type) : ∃ levels, type.Fits levels := by
  induction h with
  | named => exact ⟨0, .named 0 _⟩
  | list _ _ _ ih => exact ih.imp' (· + 1) fun _ => .list
  | nonNull _ hbare _ ih => exact ih.imp fun _ h => .nonNull h hbare

theorem Spells.written (h : Spells cs type) (hopen : Open rest)
    (hws : Written true rest ws) : Written comma (cs ++ rest) (type.words ++ ws) := by
  induction h generalizing comma rest ws with
  | named hbefore hname hbehind =>
    rw [List.append_assoc, List.append_assoc]
    exact .ignored hbefore (.name hname (open_ignored hbehind hopen) (.ignored hbehind hws))
  | @list before cs behind item hbefore _ hbehind ih =>
    have htext : before ++ '[' :: (cs ++ ']' :: behind) ++ rest =
        before ++ '[' :: (cs ++ ']' :: (behind ++ rest)) := by simp
    have hwords : TypeRef.words (.list item) ++ ws =
        .mark .bracketL '[' :: (item.words ++ .mark .bracketR ']' :: ws) := by
      simp [TypeRef.words]
    rw [htext, hwords]
    exact .ignored hbefore (.mark rfl
      (ih (open_cons (by decide) _) (.mark rfl (.ignored hbehind hws))))
  | @nonNull cs behind type _ _ hbehind ih =>
    have htext : cs ++ '!' :: behind ++ rest = cs ++ '!' :: (behind ++ rest) := by simp
    rw [htext, TypeRef.words, List.append_assoc]
    exact ih (open_cons (by decide) _) (.mark rfl (.ignored hbehind hws))

/-- A text spells one type at most, since reading it gives one result. -/
theorem Spells.unique (h : Spells cs type) (h' : Spells cs type') : type = type' := by
  obtain ⟨m, hm⟩ := h.exists_fits
  obtain ⟨n, hn⟩ := h'.exists_fits
  have hread {t : TypeRef} (ht : Spells cs t) (hfits : t.Fits (m + n)) :
      (typeRefIn (m + n) (.start (gather 0 [] (lexemesFrom 0 0 cs)))).1 = some t := by
    have hwritten : Written false (cs ++ []) (t.words ++ []) := ht.written open_nil .nil
    rw [List.append_nil, List.append_nil] at hwritten
    have hends : Reads [.ending] [.ending] (settleType t) (· = some t) :=
      reads_settleType t (by decide)
    exact (reads_typeRefIn_settle hfits hends (.start _) (hwritten.lexes 0 0 [] fun _ => rfl).2).1
  have hsame := (hread h (hm.mono (by omega))).symm.trans (hread h' (hn.mono (by omega)))
  exact Option.some.inj hsame

/-- The argument is a string that reads as it is written. -/
def Argument.IsQuoted (a : Argument) : Prop := ∃ text, a.value = .string text ∧ IsPlain text

theorem DirectiveText.of_same {text : String} {d d' : Directive} (h : DirectiveText text d)
    (hname : d'.name = d.name) (harguments : d'.arguments = d.arguments) :
    DirectiveText text d' := by
  cases h with
  | bare hn ha =>
    rw [← hname] at hn ⊢
    exact .bare hn (harguments.trans ha)
  | argument hn hargument hvalue ha =>
    rw [← hname] at hn ⊢
    exact .argument hn hargument hvalue (harguments.trans ha)

theorem DirectiveText.isQuoted {text : String} {d : Directive} (h : DirectiveText text d) :
    ∀ a ∈ d.arguments, a.IsQuoted := by
  cases h with
  | bare _ ha => simp [ha]
  | argument _ _ hvalue ha => simpa [ha, Argument.IsQuoted] using hvalue

theorem DirectiveText.written {text : String} {d : Directive} (h : DirectiveText text d)
    (hopen : Open rest) (hws : Written false rest ws) :
    Written comma (text.toList ++ rest) (d.words ++ ws) := by
  cases h with
  | bare hname harguments =>
    rw [Directive.words, harguments, String.toList_append]
    exact .mark rfl (.name hname hopen hws)
  | @argument _ name value hname hargument hvalue harguments =>
    have htext : ("@" ++ d.name ++ "(" ++ name ++ ": " ++ quoted value ++ ")").toList ++ rest =
        '@' :: (d.name.toList ++ '(' :: (name.toList ++ ':' :: ' ' ::
          ((quoted value).toList ++ ')' :: rest))) := by simp
    rw [Directive.words, harguments, htext]
    refine .mark rfl (.name hname (open_cons (by decide) _) (.mark rfl ?_))
    refine .name hargument (open_cons (by decide) _) (.mark rfl (.space rfl ?_))
    exact .quotedString hvalue (open_cons (by decide) _) (.mark rfl hws)

theorem open_renderDirectives (texts : List String) (hopen : Open rest) :
    Open ((renderDirectives texts).toList ++ rest) := by
  cases texts with
  | nil => exact hopen
  | cons text texts =>
    simp [renderDirectives]
    exact open_cons (by decide) _

theorem written_directives {texts : List String} {ds : List Directive}
    (h : List.Forall₂ DirectiveText texts ds) (hopen : Open rest) (hws : Written true rest ws) :
    Written comma ((renderDirectives texts).toList ++ rest) (ds.flatMap Directive.words ++ ws) := by
  induction h generalizing comma with
  | nil => exact hws.relax
  | @cons text d texts ds hd _ ih =>
    have htext : (renderDirectives (text :: texts)).toList ++ rest =
        ' ' :: (text.toList ++ ((renderDirectives texts).toList ++ rest)) := by
      simp [renderDirectives]
    rw [htext, List.flatMap_cons, List.append_assoc]
    exact .space rfl (hd.written (open_renderDirectives texts hopen) ih)

end Texts

/-! ## Well-formed drafts -/

/-- Every part is well formed, and lists in types are at most so many levels deep. -/
structure InputDraft.WellFormed (levels : Nat) (d : InputDraft) : Prop where
  name : isName d.name = true
  type : ∃ type, Spells d.type.toList type ∧ type.Fits levels
  description : IsDescription d.description

structure FieldDraft.WellFormed (levels : Nat) (d : FieldDraft) : Prop where
  name : isName d.name = true
  type : ∃ type, Spells d.type.toList type ∧ type.Fits levels
  description : IsDescription d.description
  arguments : ∀ a ∈ d.arguments, a.WellFormed levels
  directives : ∀ text ∈ d.directives, ∃ x, DirectiveText text x

structure EnumValueDraft.WellFormed (d : EnumValueDraft) : Prop where
  name : isName d.name = true
  unreserved : d.name ∉ reservedValues
  description : IsDescription d.description
  directives : ∀ text ∈ d.directives, ∃ x, DirectiveText text x

/-- What holds members has one. An extension may have any description, since it does not
show it. -/
def DefinitionDraft.WellFormed (levels : Nat) : DefinitionDraft → Prop
  | .fielded form name description directives fields =>
      isName name = true ∧ (form ≠ .extension → IsDescription description) ∧
        (∀ text ∈ directives, ∃ x, DirectiveText text x) ∧ fields ≠ [] ∧
        ∀ f ∈ fields, f.WellFormed levels
  | .enum name description values =>
      isName name = true ∧ IsDescription description ∧ values ≠ [] ∧ ∀ v ∈ values, v.WellFormed
  | .input name description fields =>
      isName name = true ∧ IsDescription description ∧ fields ≠ [] ∧
        ∀ f ∈ fields, f.WellFormed levels
  | .union name description members =>
      isName name = true ∧ IsDescription description ∧ members ≠ [] ∧
        ∀ m ∈ members, isName m = true
  | .scalar name description => isName name = true ∧ IsDescription description
  | .raw _ => False

/-! ## What they mean -/

structure InputDraft.Means (d : InputDraft) (v : InputValue) : Prop where
  description : v.description = d.description
  name : v.name.text = d.name
  type : Spells d.type.toList v.type
  directives : v.directives = []

structure FieldDraft.Means (d : FieldDraft) (f : Field) : Prop where
  description : f.description = d.description
  name : f.name.text = d.name
  arguments : List.Forall₂ InputDraft.Means d.arguments f.arguments
  type : Spells d.type.toList f.type
  directives : List.Forall₂ DirectiveText d.directives f.directives

structure EnumValueDraft.Means (d : EnumValueDraft) (v : EnumValue) : Prop where
  description : v.description = d.description
  name : v.name.text = d.name
  directives : List.Forall₂ DirectiveText d.directives v.directives

/-- An extension extends an object type. -/
def FieldedForm.body (fields : List Field) : FieldedForm → Body
  | .object => .object fields
  | .interface => .interface fields
  | .extension => .object fields

/-- The draft stands for the definition, positions apart. -/
inductive DefinitionDraft.Means : DefinitionDraft → Definition → Prop
  | fielded {form : FieldedForm} {name : String} {description : Option String}
      {directives : List String} {fields : List FieldDraft} {fs : List Field} {x : Definition}
      (hextension : x.isExtension = decide (form = .extension))
      (hdescription : x.description = if form = .extension then none else description)
      (hname : x.name.text = name)
      (hdirectives : List.Forall₂ DirectiveText directives x.directives)
      (hbody : x.body = form.body fs) (hfields : List.Forall₂ FieldDraft.Means fields fs) :
      Means (.fielded form name description directives fields) x
  | enum {name : String} {description : Option String} {values : List EnumValueDraft}
      {vs : List EnumValue} {x : Definition} (hextension : x.isExtension = false)
      (hdescription : x.description = description) (hname : x.name.text = name)
      (hdirectives : x.directives = []) (hbody : x.body = .enum vs)
      (hvalues : List.Forall₂ EnumValueDraft.Means values vs) :
      Means (.enum name description values) x
  | input {name : String} {description : Option String} {fields : List InputDraft}
      {fs : List InputValue} {x : Definition} (hextension : x.isExtension = false)
      (hdescription : x.description = description) (hname : x.name.text = name)
      (hdirectives : x.directives = []) (hbody : x.body = .input fs)
      (hfields : List.Forall₂ InputDraft.Means fields fs) :
      Means (.input name description fields) x
  | union {name : String} {description : Option String} {members : List String} {x : Definition}
      (hextension : x.isExtension = false) (hdescription : x.description = description)
      (hname : x.name.text = name) (hdirectives : x.directives = [])
      (hbody : x.body = .union members) : Means (.union name description members) x
  | scalar {name : String} {description : Option String} {x : Definition}
      (hextension : x.isExtension = false) (hdescription : x.description = description)
      (hname : x.name.text = name) (hdirectives : x.directives = []) (hbody : x.body = .scalar) :
      Means (.scalar name description) x

section Meaning

variable {levels : Nat}

theorem exists_forall₂ {α β : Type} {R : α → β → Prop} {as : List α} (h : ∀ a ∈ as, ∃ b, R a b) :
    ∃ bs, List.Forall₂ R as bs := by
  induction as with
  | nil => exact ⟨[], .nil⟩
  | cons a as ih =>
    obtain ⟨⟨b, hb⟩, has⟩ := List.forall_mem_cons.mp h
    obtain ⟨bs, hbs⟩ := ih has
    exact ⟨b :: bs, .cons hb hbs⟩

theorem InputDraft.WellFormed.exists_means {d : InputDraft} (h : d.WellFormed levels) :
    ∃ v, d.Means v := by
  obtain ⟨type, htype, -⟩ := h.type
  exact ⟨⟨d.description, ⟨d.name, 0⟩, type, []⟩, rfl, rfl, htype, rfl⟩

theorem FieldDraft.WellFormed.exists_means {d : FieldDraft} (h : d.WellFormed levels) :
    ∃ f, d.Means f := by
  obtain ⟨type, htype, -⟩ := h.type
  obtain ⟨arguments, harguments⟩ := exists_forall₂ fun a ha => (h.arguments a ha).exists_means
  obtain ⟨directives, hdirectives⟩ := exists_forall₂ h.directives
  exact ⟨⟨d.description, ⟨d.name, 0⟩, arguments, type, directives⟩, rfl, rfl, harguments, htype,
    hdirectives⟩

theorem EnumValueDraft.WellFormed.exists_means {d : EnumValueDraft} (h : d.WellFormed) :
    ∃ v, d.Means v := by
  obtain ⟨directives, hdirectives⟩ := exists_forall₂ h.directives
  exact ⟨⟨d.description, ⟨d.name, 0⟩, directives⟩, rfl, rfl, hdirectives⟩

theorem DefinitionDraft.WellFormed.exists_means {d : DefinitionDraft} (h : d.WellFormed levels) :
    ∃ x, d.Means x := by
  cases d with
  | fielded form name description directives fields =>
    obtain ⟨-, -, hdirectives, -, hfields⟩ := h
    obtain ⟨ds, hds⟩ := exists_forall₂ hdirectives
    obtain ⟨fs, hfs⟩ := exists_forall₂ fun f hf => (hfields f hf).exists_means
    exact ⟨⟨_, _, ⟨name, 0⟩, ds, form.body fs, 0⟩, .fielded rfl rfl rfl hds rfl hfs⟩
  | enum name description values =>
    obtain ⟨vs, hvs⟩ := exists_forall₂ fun v hv => (h.2.2.2 v hv).exists_means
    exact ⟨⟨false, description, ⟨name, 0⟩, [], .enum vs, 0⟩, .enum rfl rfl rfl rfl rfl hvs⟩
  | input name description fields =>
    obtain ⟨fs, hfs⟩ := exists_forall₂ fun f hf => (h.2.2.2 f hf).exists_means
    exact ⟨⟨false, description, ⟨name, 0⟩, [], .input fs, 0⟩, .input rfl rfl rfl rfl rfl hfs⟩
  | union name description members =>
    exact ⟨⟨false, description, ⟨name, 0⟩, [], .union members, 0⟩, .union rfl rfl rfl rfl rfl⟩
  | scalar name description =>
    exact ⟨⟨false, description, ⟨name, 0⟩, [], .scalar, 0⟩, .scalar rfl rfl rfl rfl rfl⟩
  | raw text => exact h.elim

theorem InputDraft.WellFormed.fits {d : InputDraft} {v : InputValue} (hd : d.WellFormed levels)
    (h : d.Means v) : v.type.Fits levels := by
  obtain ⟨type, htype, hfits⟩ := hd.type
  rwa [h.type.unique htype]

theorem FieldDraft.WellFormed.fits {d : FieldDraft} {f : Field} (hd : d.WellFormed levels)
    (h : d.Means f) : f.type.Fits levels := by
  obtain ⟨type, htype, hfits⟩ := hd.type
  rwa [h.type.unique htype]

end Meaning

/-! ## Words of definitions -/

def InputValue.words (v : InputValue) : List Word :=
  descriptionWords v.description ++ .ofName v.name.text :: .mark .colon ':' :: v.type.words

def Field.words (f : Field) : List Word :=
  descriptionWords f.description ++ .ofName f.name.text ::
    (listWords InputValue.words f.arguments ++ .mark .colon ':' :: (f.type.words ++ f.directives.flatMap Directive.words))

def EnumValue.words (v : EnumValue) : List Word :=
  descriptionWords v.description ++ .ofName v.name.text :: v.directives.flatMap Directive.words

/-- Words between braces. -/
def blockWords (ws : List Word) : List Word :=
  .mark .braceL '\x7b' :: (ws ++ [.mark .braceR '\x7d'])

/-- Names with a bar between them. -/
def memberWords : List String → List Word
  | [] => []
  | name :: names => .ofName name :: names.flatMap fun n => [.mark .pipe '|', .ofName n]

def Body.words : Body → List Word
  | .object fs => blockWords (fs.flatMap Field.words)
  | .interface fs => blockWords (fs.flatMap Field.words)
  | .input fs => blockWords (fs.flatMap InputValue.words)
  | .enum vs => blockWords (vs.flatMap EnumValue.words)
  | .union ms => .mark .equals '=' :: memberWords ms
  | .scalar => []

/-- What stands before the name of a definition. The keyword has to be seen from the token
before it. -/
def Definition.headWords (x : Definition) : List Word :=
  (if x.isExtension then [⟨.name, "extend", true⟩] else descriptionWords x.description) ++
    [⟨.name, x.kind.keyword, true⟩]

def Definition.words (x : Definition) : List Word :=
  x.headWords ++ .ofName x.name.text :: (x.directives.flatMap Directive.words ++ x.body.words)

theorem Definition.words_of_extension {x : Definition} (h : x.isExtension = true) (ws : List Word) :
    x.words ++ ws = ⟨.name, "extend", true⟩ :: ⟨.name, x.kind.keyword, true⟩ ::
      .ofName x.name.text :: (x.directives.flatMap Directive.words ++ (x.body.words ++ ws)) := by
  simp [Definition.words, Definition.headWords, h]

theorem Definition.words_of_plain {x : Definition} (h : x.isExtension = false) (ws : List Word) :
    x.words ++ ws = descriptionWords x.description ++ ⟨.name, x.kind.keyword, true⟩ ::
      .ofName x.name.text :: (x.directives.flatMap Directive.words ++ (x.body.words ++ ws)) := by
  simp [Definition.words, Definition.headWords, h]

theorem Definition.exists_words (x : Definition) :
    ∃ w ws, x.words = w :: ws ∧ (w.kind = .name ∨ w.kind = .string) := by
  rw [← List.append_nil x.words]
  cases hextension : x.isExtension with
  | true => exact ⟨_, _, Definition.words_of_extension hextension [], .inl rfl⟩
  | false =>
    rw [Definition.words_of_plain hextension]
    cases x.description with
    | none => exact ⟨_, _, rfl, .inl rfl⟩
    | some text => exact ⟨_, _, rfl, .inr rfl⟩

section Written

variable {levels : Nat} {comma : Bool} {rest : List Char} {ws : List Word}

theorem written_description {indent : String} (hindent : indent.toList.all isSpace = true)
    {description : Option String} (h : IsDescription description) (hws : Written comma rest ws) :
    Written comma ((renderDescription indent description).toList ++ rest)
      (descriptionWords description ++ ws) := by
  cases description with
  | none => exact hws
  | some text =>
    have htext : (renderDescription indent (some text)).toList ++ rest =
        indent.toList ++ ((blockQuoted text).toList ++ '\n' :: rest) := by
      simp [renderDescription, blockQuoted]
    rw [htext]
    exact .spaces hindent (.blockString (h text rfl).1 (.space rfl hws.relaxed))

theorem InputDraft.WellFormed.written {d : InputDraft} {v : InputValue}
    (hd : d.WellFormed levels) (h : d.Means v) (hopen : Open rest) (hws : Written true rest ws) :
    Written comma (d.render.toList ++ rest) (v.words ++ ws) := by
  have htext : d.render.toList ++ rest = (renderDescription "  " d.description).toList ++
      ' ' :: ' ' :: (d.name.toList ++ ':' :: ' ' :: (d.type.toList ++ rest)) := by
    simp [InputDraft.render]
  rw [htext, InputValue.words, h.description, h.name, List.append_assoc]
  refine written_description (by decide) hd.description (.space rfl (.space rfl ?_))
  exact .name hd.name (open_cons (by decide) _) (.mark rfl (.space rfl (h.type.written hopen hws)))

theorem InputDraft.WellFormed.written_inline {d : InputDraft} {v : InputValue}
    (hd : d.WellFormed levels) (h : d.Means v) (hopen : Open rest) (hws : Written true rest ws) :
    Written comma (d.renderInline.toList ++ rest) (v.words ++ ws) := by
  have hname : ∀ {comma}, Written comma (d.name.toList ++ ':' :: ' ' :: (d.type.toList ++ rest))
      (.ofName d.name :: .mark .colon ':' :: (v.type.words ++ ws)) :=
    .name hd.name (open_cons (by decide) _) (.mark rfl (.space rfl (h.type.written hopen hws)))
  rw [InputValue.words, h.description, h.name]
  cases hdescription : d.description with
  | none => simpa [InputDraft.renderInline, hdescription, descriptionWords] using hname
  | some text =>
    have htext : d.renderInline.toList ++ rest = (blockQuoted text).toList ++
        ' ' :: (d.name.toList ++ ':' :: ' ' :: (d.type.toList ++ rest)) := by
      simp [InputDraft.renderInline, hdescription, blockQuoted]
    rw [htext]
    exact .blockString (hd.description text hdescription).1 (.space rfl hname)

/-- Arguments up to the bracket that closes them. -/
theorem written_arguments {ds : List InputDraft} {vs : List InputValue}
    (hds : ∀ d ∈ ds, d.WellFormed levels) (h : List.Forall₂ InputDraft.Means ds vs) (hne : ds ≠ [])
    (hws : Written false rest ws) :
    Written comma ((", ".intercalate (ds.map (·.renderInline))).toList ++ ')' :: rest)
      (vs.flatMap InputValue.words ++ .mark .parenR ')' :: ws) := by
  induction h generalizing comma with
  | nil => exact absurd rfl hne
  | @cons d v ds vs hd hrest ih =>
    obtain ⟨hwf, hds⟩ := List.forall_mem_cons.mp hds
    cases hrest with
    | nil =>
      simpa using hwf.written_inline hd (open_cons (by decide) _) (.mark rfl hws)
    | @cons d' v' ds vs hd' hrest' =>
      have htext : (", ".intercalate ((d :: d' :: ds).map (·.renderInline))).toList ++ ')' :: rest =
          d.renderInline.toList ++ ',' :: ' ' ::
            ((", ".intercalate ((d' :: ds).map (·.renderInline))).toList ++ ')' :: rest) := by
        simp
      rw [htext, List.flatMap_cons, List.append_assoc]
      exact hwf.written_inline hd (open_cons (by decide) _)
        (.comma (.space rfl (ih hds (List.cons_ne_nil _ _))))

/-- The arguments of a field as they are written behind its name. -/
def argumentText (ds : List InputDraft) : String :=
  if ds.isEmpty then "" else "(" ++ ", ".intercalate (ds.map (·.renderInline)) ++ ")"

theorem open_argumentText (ds : List InputDraft) (hopen : Open rest) :
    Open ((argumentText ds).toList ++ rest) := by
  cases ds with
  | nil => exact hopen
  | cons d ds =>
    simp only [argumentText, List.isEmpty_cons, Bool.false_eq_true, if_false, String.toList_append,
      List.append_assoc]
    exact open_cons (by decide) _

theorem written_argumentText {ds : List InputDraft} {vs : List InputValue}
    (hds : ∀ d ∈ ds, d.WellFormed levels) (h : List.Forall₂ InputDraft.Means ds vs)
    (hws : Written false rest ws) :
    Written false ((argumentText ds).toList ++ rest) (listWords InputValue.words vs ++ ws) := by
  cases h with
  | nil => exact hws
  | @cons d v ds vs hd hrest =>
    have htext : (argumentText (d :: ds)).toList ++ rest =
        '(' :: ((", ".intercalate ((d :: ds).map (·.renderInline))).toList ++ ')' :: rest) := by
      simp [argumentText]
    have hwords : listWords InputValue.words (v :: vs) ++ ws = .mark .parenL '(' ::
        ((v :: vs).flatMap InputValue.words ++ .mark .parenR ')' :: ws) := by
      simp [listWords]
    rw [htext, hwords]
    exact .mark rfl (written_arguments hds (.cons hd hrest) (List.cons_ne_nil _ _) hws)

theorem FieldDraft.WellFormed.written {d : FieldDraft} {f : Field} (hd : d.WellFormed levels)
    (h : d.Means f) (hopen : Open rest) (hws : Written true rest ws) :
    Written comma (d.render.toList ++ rest) (f.words ++ ws) := by
  have htext : d.render.toList ++ rest = (renderDescription "  " d.description).toList ++
      ' ' :: ' ' :: (d.name.toList ++ ((argumentText d.arguments).toList ++
        ':' :: ' ' :: (d.type.toList ++ ((renderDirectives d.directives).toList ++ rest)))) := by
    simp [FieldDraft.render, argumentText]
  have htype : Written false (':' :: ' ' :: (d.type.toList ++
      ((renderDirectives d.directives).toList ++ rest))) (.mark .colon ':' ::
        (f.type.words ++ (f.directives.flatMap Directive.words ++ ws))) :=
    .mark rfl (.space rfl (h.type.written (open_renderDirectives _ hopen)
      (written_directives h.directives hopen hws)))
  have hwords : f.words ++ ws = descriptionWords d.description ++ .ofName d.name ::
      (listWords InputValue.words f.arguments ++ .mark .colon ':' ::
        (f.type.words ++ (f.directives.flatMap Directive.words ++ ws))) := by
    simp [Field.words, h.description, h.name]
  rw [htext, hwords]
  refine written_description (by decide) hd.description (.space rfl (.space rfl ?_))
  exact .name hd.name (open_argumentText _ (open_cons (by decide) _))
    (written_argumentText hd.arguments h.arguments htype)

theorem EnumValueDraft.WellFormed.written {d : EnumValueDraft} {v : EnumValue} (hd : d.WellFormed)
    (h : d.Means v) (hopen : Open rest) (hws : Written true rest ws) :
    Written comma (d.render.toList ++ rest) (v.words ++ ws) := by
  have htext : d.render.toList ++ rest = (renderDescription "  " d.description).toList ++
      ' ' :: ' ' :: (d.name.toList ++ ((renderDirectives d.directives).toList ++ rest)) := by
    simp [EnumValueDraft.render]
  have hwords : v.words ++ ws = descriptionWords d.description ++ .ofName d.name ::
      (v.directives.flatMap Directive.words ++ ws) := by
    simp [EnumValue.words, h.description, h.name]
  rw [htext, hwords]
  refine written_description (by decide) hd.description (.space rfl (.space rfl ?_))
  exact .name hd.name (open_renderDirectives _ hopen) (written_directives h.directives hopen hws)

/-- Members on lines of their own, whatever they are. -/
theorem written_block {ι κ : Type} {R : ι → κ → Prop} {render : ι → String}
    {words : κ → List Word} {ds : List ι} {xs : List κ} (h : List.Forall₂ R ds xs)
    (hmember : ∀ d x comma rest ws, R d x → Open rest → Written true rest ws →
      Written comma ((render d).toList ++ rest) (words x ++ ws)) (hws : Written false rest ws) :
    Written comma ((renderBlock (ds.map render)).toList ++ rest)
      (blockWords (xs.flatMap words) ++ ws) := by
  have hlines : ∀ {comma}, Written comma
      ((String.join ((ds.map render).map (· ++ "\n"))).toList ++ '\x7d' :: rest)
      (xs.flatMap words ++ .mark .braceR '\x7d' :: ws) := by
    intro comma
    induction h generalizing comma with
    | nil => exact .mark rfl hws
    | @cons d x ds xs hd _ ih =>
      have htext : (String.join (((d :: ds).map render).map (· ++ "\n"))).toList ++ '\x7d' :: rest =
          (render d).toList ++ '\n' ::
            ((String.join ((ds.map render).map (· ++ "\n"))).toList ++ '\x7d' :: rest) := by
        simp
      rw [htext, List.flatMap_cons, List.append_assoc]
      exact hmember d x _ ('\n' :: _) _ hd (open_cons (by decide) _) (.space rfl ih)
  have htext : (renderBlock (ds.map render)).toList ++ rest = ' ' :: '\x7b' :: '\n' ::
      ((String.join ((ds.map render).map (· ++ "\n"))).toList ++ '\x7d' :: rest) := by
    simp [renderBlock]
  have hwords : blockWords (xs.flatMap words) ++ ws =
      .mark .braceL '\x7b' :: (xs.flatMap words ++ .mark .braceR '\x7d' :: ws) := by
    simp [blockWords]
  rw [htext, hwords]
  exact .space rfl (.mark rfl (.space rfl hlines))

theorem written_unionMembers {names : List String} (h : ∀ n ∈ names, isName n = true)
    (hne : names ≠ []) (hopen : Open rest) (hws : Written false rest ws) :
    Written comma ((" | ".intercalate names).toList ++ rest) (memberWords names ++ ws) := by
  induction names generalizing comma with
  | nil => exact absurd rfl hne
  | cons n names ih =>
    obtain ⟨hn, hnames⟩ := List.forall_mem_cons.mp h
    cases names with
    | nil => simpa [memberWords] using Written.name hn hopen hws
    | cons n' names =>
      have htext : (" | ".intercalate (n :: n' :: names)).toList ++ rest =
          n.toList ++ ' ' :: '|' :: ' ' :: ((" | ".intercalate (n' :: names)).toList ++ rest) := by
        simp
      have hwords : memberWords (n :: n' :: names) ++ ws =
          .ofName n :: .mark .pipe '|' :: (memberWords (n' :: names) ++ ws) := by
        simp [memberWords]
      rw [htext, hwords]
      exact .name hn (open_cons (by decide) _)
        (.space rfl (.mark rfl (.space rfl (ih hnames (List.cons_ne_nil _ _)))))

theorem open_renderBlock (members : List String) : Open ((renderBlock members).toList ++ rest) := by
  simp only [renderBlock, String.toList_append, List.append_assoc]
  exact open_cons (by decide) _

theorem isName_keyword (kind : TypeKind) : isName kind.keyword = true := by
  cases kind <;> decide

/-- What stands before the name of a definition that is no extension. -/
theorem written_head (kind : TypeKind) {description : Option String}
    (hdescription : IsDescription description) (hws : Written false rest ws) :
    Written false ((renderDescription "" description).toList ++ (kind.keyword.toList ++ ' ' :: rest))
      (descriptionWords description ++ ⟨.name, kind.keyword, true⟩ :: ws) :=
  written_description rfl hdescription
    (.of_isName (isName_keyword kind) (open_cons (by decide) _) (fun _ => rfl) (.space rfl hws))

theorem written_fielded {form : FieldedForm} {name : String} {description : Option String}
    {directives : List String} {fields : List FieldDraft} {fs : List Field} {x : Definition}
    (hd : (DefinitionDraft.fielded form name description directives fields).WellFormed levels)
    (hextension : x.isExtension = decide (form = .extension))
    (hdescription : x.description = if form = .extension then none else description)
    (hname : x.name.text = name) (hdirectives : List.Forall₂ DirectiveText directives x.directives)
    (hbody : x.body = form.body fs) (hfields : List.Forall₂ FieldDraft.Means fields fs)
    (hws : Written false rest ws) :
    Written false ((DefinitionDraft.fielded form name description directives fields).render.toList ++
      rest) (x.words ++ ws) := by
  obtain ⟨hn, hplain, -, -, hfs⟩ := hd
  have htail : Written false (name.toList ++ ((renderDirectives directives).toList ++
      ((renderBlock (fields.map (·.render))).toList ++ rest))) (.ofName name ::
        (x.directives.flatMap Directive.words ++ (blockWords (fs.flatMap Field.words) ++ ws))) :=
    .name hn (open_renderDirectives _ (open_renderBlock _)) (written_directives hdirectives
      (open_renderBlock _) (written_block ((List.forall₂_and_left _ _).mpr ⟨hfs, hfields⟩)
        (fun _ _ _ _ _ h => h.1.written h.2) hws))
  cases form with
  | object =>
    have hhead := written_head .object (hplain (by decide)) htail
    simpa [DefinitionDraft.render, FieldedForm.keyword, TypeKind.keyword, Definition.words,
      Definition.headWords, Definition.kind, FieldedForm.body, Body.kind, Body.words, hextension,
      hdescription, hname, hbody] using hhead
  | interface =>
    have hhead := written_head .interface (hplain (by decide)) htail
    simpa [DefinitionDraft.render, FieldedForm.keyword, TypeKind.keyword, Definition.words,
      Definition.headWords, Definition.kind, FieldedForm.body, Body.kind, Body.words, hextension,
      hdescription, hname, hbody] using hhead
  | extension =>
    have hkeyword : Written false ("extend".toList ++ ' ' :: ("type".toList ++ ' ' :: _))
        (⟨.name, "extend", true⟩ :: ⟨.name, "type", true⟩ :: _) :=
      .of_isName (by decide) (open_cons (by decide) _) (fun _ => rfl) (.space rfl
        (.of_isName (by decide) (open_cons (by decide) _) (fun _ => rfl) (.space rfl htail)))
    simpa [DefinitionDraft.render, FieldedForm.keyword, TypeKind.keyword, Definition.words,
      Definition.headWords, Definition.kind, FieldedForm.body, Body.kind, Body.words, hextension,
      hdescription, hname, hbody] using hkeyword

/-- A definition of another kind, whose body is written behind its name. -/
theorem written_plain {x : Definition} {name body : String} {description : Option String}
    (hdescription : IsDescription description) (hn : isName name = true)
    (hextension : x.isExtension = false) (hx : x.description = description)
    (hname : x.name.text = name) (hdirectives : x.directives = [])
    (hopen : Open (body.toList ++ rest))
    (hbody : Written false (body.toList ++ rest) (x.body.words ++ ws)) :
    Written false ((renderDescription "" description ++ x.kind.keyword ++ " " ++ name ++
      body).toList ++ rest) (x.words ++ ws) := by
  have hhead := written_head x.kind hdescription (.name hn hopen hbody)
  simpa [Definition.words, Definition.headWords, hextension, hx, hname, hdirectives] using hhead

theorem DefinitionDraft.WellFormed.written {d : DefinitionDraft} {x : Definition}
    (hd : d.WellFormed levels) (h : d.Means x) (hopen : Open rest) (hws : Written false rest ws) :
    Written false (d.render.toList ++ rest) (x.words ++ ws) := by
  cases h with
  | fielded hextension hdescription hname hdirectives hbody hfields =>
    exact written_fielded hd hextension hdescription hname hdirectives hbody hfields hws
  | @enum name description values vs _ hextension hdescription hname hdirectives hbody hvalues =>
    obtain ⟨hn, hplain, -, hvs⟩ := hd
    have hblock : Written false ((renderBlock (values.map (·.render))).toList ++ rest)
        (blockWords (vs.flatMap EnumValue.words) ++ ws) :=
      written_block ((List.forall₂_and_left _ _).mpr ⟨hvs, hvalues⟩)
        (fun _ _ _ _ _ h => h.1.written h.2) hws
    have hwritten := written_plain hplain hn hextension hdescription hname hdirectives
      (open_renderBlock _) (by rw [hbody]; exact hblock)
    simpa [DefinitionDraft.render, Definition.kind, hbody, Body.kind, TypeKind.keyword]
      using hwritten
  | @input name description fields fs _ hextension hdescription hname hdirectives hbody hfields =>
    obtain ⟨hn, hplain, -, hfs⟩ := hd
    have hblock : Written false ((renderBlock (fields.map (·.render))).toList ++ rest)
        (blockWords (fs.flatMap InputValue.words) ++ ws) :=
      written_block ((List.forall₂_and_left _ _).mpr ⟨hfs, hfields⟩)
        (fun _ _ _ _ _ h => h.1.written h.2) hws
    have hwritten := written_plain hplain hn hextension hdescription hname hdirectives
      (open_renderBlock _) (by rw [hbody]; exact hblock)
    simpa [DefinitionDraft.render, Definition.kind, hbody, Body.kind, TypeKind.keyword]
      using hwritten
  | @union name description members _ hextension hdescription hname hdirectives hbody =>
    obtain ⟨hn, hplain, hne, hmembers⟩ := hd
    have hunion : Written false ((" = " ++ " | ".intercalate members).toList ++ rest)
        (x.body.words ++ ws) := by
      rw [hbody, String.toList_append, List.append_assoc]
      exact .space rfl (.mark rfl (.space rfl (written_unionMembers hmembers hne hopen hws)))
    have hwritten := written_plain hplain hn hextension hdescription hname hdirectives
      (by rw [String.toList_append, List.append_assoc]; exact open_cons (by decide) _) hunion
    simpa [DefinitionDraft.render, Definition.kind, hbody, Body.kind, TypeKind.keyword,
      String.append_assoc] using hwritten
  | @scalar name description _ hextension hdescription hname hdirectives hbody =>
    obtain ⟨hn, hplain⟩ := hd
    have hbehind : Open ("".toList ++ rest) ∧
        Written false ("".toList ++ rest) (x.body.words ++ ws) := by
      simpa [hbody, Body.words] using ⟨hopen, hws⟩
    have hwritten := written_plain hplain hn hextension hdescription hname hdirectives hbehind.1
      hbehind.2
    simpa [DefinitionDraft.render, Definition.kind, hbody, Body.kind, TypeKind.keyword]
      using hwritten

theorem written_definitions {ds : List DefinitionDraft} {xs : List Definition}
    (hds : ∀ d ∈ ds, d.WellFormed levels) (h : List.Forall₂ DefinitionDraft.Means ds xs) :
    Written false (("\n\n".intercalate (ds.map (·.render))).toList ++ ['\n'])
      (xs.flatMap Definition.words) := by
  have hend : Written false ['\n'] [] := .space rfl .nil
  induction h with
  | nil => exact hend
  | @cons d x ds xs hd hrest ih =>
    obtain ⟨hwf, hds⟩ := List.forall_mem_cons.mp hds
    cases hrest with
    | nil => simpa using hwf.written hd (open_cons (by decide) _) hend
    | @cons d' x' ds xs hd' hrest =>
      have htext : ("\n\n".intercalate ((d :: d' :: ds).map (·.render))).toList ++ ['\n'] =
          d.render.toList ++ '\n' :: '\n' ::
            (("\n\n".intercalate ((d' :: ds).map (·.render))).toList ++ ['\n']) := by
        simp
      rw [htext, List.flatMap_cons]
      exact hwf.written hd (open_cons (by decide) _) (.space rfl (.space rfl (ih hds)))

end Written

end SchemaLint.Sdl
