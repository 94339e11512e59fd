import SchemaLint.Proofs.BlankedLines
import SchemaLint.Proofs.Provenance
import SchemaLint.Proofs.Sdl.NameTokens

/-!
# Diagnostics on the lines of names

Most rules point at the name of what they complain about. The offset of a name counts bytes
of the text with its comment lines blanked out, its line is found among the line feeds of
the text itself, and what a diagnostic shows comes from a third cut of the text into lines.
The three agree: the line holds the name, and so does what is shown of it.
-/

namespace SchemaLint.Source

open Text Sdl

/-! ## Words of one line -/

section Words

variable {w : List Char} (hne : w ≠ [])
include hne

/-- A word lies in the first line of a text or behind it. -/
theorem word_of_line (hfeed : '\n' ∉ w) {l cs a b : List Char}
    (h : l ++ '\n' :: cs = a ++ (w ++ b)) :
    (∃ r, l = a ++ (w ++ r)) ∨ ∃ a', a = l ++ '\n' :: a' ∧ cs = a' ++ (w ++ b) := by
  obtain ⟨x, rfl, hx⟩ | ⟨x, rfl, hx⟩ := List.append_eq_append_iff.mp h
  · -- The word begins behind the line, so the line feed belongs to what is before it.
    cases x with
    | nil =>
      cases w with
      | nil => exact absurd rfl hne
      | cons c w =>
        obtain ⟨rfl, -⟩ := List.cons.inj hx
        exact absurd List.mem_cons_self hfeed
    | cons c x =>
      obtain ⟨rfl, hcs⟩ := List.cons.inj hx
      exact .inr ⟨x, rfl, hcs⟩
  · obtain ⟨y, rfl, hy⟩ | ⟨y, rfl, hy⟩ := List.append_eq_append_iff.mp hx
    · exact .inl ⟨y, rfl⟩
    · -- The word goes on behind the line, so it is over where the line is.
      cases y with
      | nil => exact .inl ⟨[], by simp⟩
      | cons c y =>
        obtain ⟨rfl, -⟩ := List.cons.inj hy
        exact absurd (by simp) hfeed

/-- Characters in front of a word that are not its own belong to what is before it. -/
theorem word_behind {x m a b : List Char} (hx : ∀ c ∈ x, c ∉ w)
    (h : x ++ m = a ++ (w ++ b)) : ∃ a', a = x ++ a' ∧ m = a' ++ (w ++ b) := by
  obtain ⟨y, rfl, hy⟩ | ⟨y, rfl, hy⟩ := List.append_eq_append_iff.mp h
  · exact ⟨y, rfl, hy⟩
  · cases y with
    | nil => exact ⟨[], by simp, hy.symm⟩
    | cons c y =>
      -- The first character of the word would be one of them.
      obtain ⟨d, w, rfl⟩ := List.exists_cons_of_ne_nil hne
      obtain ⟨rfl, -⟩ := List.cons.inj hy
      exact absurd List.mem_cons_self (hx d (by simp))

theorem infix_behind {e q : List Char} (he : ∀ c ∈ e, c ∉ w) (h : w <:+: e ++ q) : w <:+: q := by
  obtain ⟨a, b, hab⟩ := h
  rw [List.append_assoc] at hab
  obtain ⟨a', -, hq⟩ := word_behind hne he hab.symm
  exact ⟨a', b, by rw [hq, List.append_assoc]⟩

theorem infix_before {q e : List Char} (he : ∀ c ∈ e, c ∉ w) (h : w <:+: q ++ e) : w <:+: q := by
  rw [← List.reverse_infix, List.reverse_append] at h
  rw [← List.reverse_infix]
  exact infix_behind (by simpa using hne) (by simpa using he) h

section Unbroken

variable (hfeed : '\n' ∉ w) (hreturn : '\r' ∉ w)
include hfeed hreturn

/-- The line of a word is told by the line feeds before it. -/
theorem infix_line {cs a b : List Char} (h : cs = a ++ (w ++ b)) :
    ∃ line, (lines cs)[a.count '\n']? = some line ∧ w <:+: line := by
  induction cs using line_induction generalizing a with
  | nil => simp_all
  | last l hl hl' =>
    have hcount : a.count '\n' = 0 := by
      rw [List.count_eq_zero]
      exact fun hmem => hl (h ▸ List.mem_append_left _ hmem)
    refine ⟨l, ?_, a, b, by rw [h, List.append_assoc]⟩
    rw [hcount, lines_last hl hl']
    rfl
  | line l cs hl ih =>
    rw [lines_line hl]
    rcases word_of_line hne hfeed h with ⟨r, hr⟩ | ⟨a', ha, hcs⟩
    · obtain ⟨ending, hending, hline⟩ := chomp_line l
      have hforeign : ∀ c ∈ ending, c ∉ w := by
        rcases hending with rfl | rfl <;> simp [hfeed, hreturn]
      have hcount : a.count '\n' = 0 := by
        rw [List.count_eq_zero]
        exact fun hmem => hl (hr ▸ List.mem_append_left _ hmem)
      refine ⟨_, by rw [hcount]; rfl, infix_before hne hforeign ?_⟩
      rw [← hline, hr]
      exact ⟨a, r ++ ['\n'], by simp⟩
    · obtain ⟨line, hget, hinfix⟩ := ih hcs
      have hcount : a.count '\n' = a'.count '\n' + 1 := by
        rw [ha, List.count_append, List.count_cons_self, List.count_eq_zero.mpr hl, Nat.zero_add]
      exact ⟨line, by rw [hcount, List.getElem?_cons_succ]; exact hget, hinfix⟩

/-- A word of a text is found on the line of its offset. -/
theorem infix_lineOfOffset {source : String} {o : Nat} (h : StandsAt source.toList w o) :
    ∃ line, (lines source.toList)[(LineIndex.ofText source).lineOfOffset o - 1]? = some line ∧
      w <:+: line := by
  obtain ⟨a, b, hsource, rfl⟩ := h
  have hline : (LineIndex.ofText source).lineOfOffset (byteLength a) = a.count '\n' + 1 := by
    rw [← LineIndex.lineOfOffset_append a (w ++ b), ← hsource, String.ofList_toList]
  rw [hline, Nat.add_sub_cancel]
  exact infix_line hne hfeed hreturn hsource

end Unbroken

/-! ## Words without blanks -/

omit hne in
theorem not_mem_of_isBlank (hw : ∀ c ∈ w, isBlank c = false) {c : Char} (hc : isBlank c = true) :
    c ∉ w := by
  intro hmem
  rw [hw c hmem] at hc
  cases hc

variable (hw : ∀ c ∈ w, isBlank c = false)
include hw

theorem infix_trim {l : List Char} (h : w <:+: l) : w <:+: trim l := by
  have hstart : w <:+: trimStart l := by
    refine infix_behind hne (e := l.takeWhile isBlank) (fun c hc => ?_) ?_
    · exact not_mem_of_isBlank hw (List.all_eq_true.mp List.all_takeWhile c hc)
    · rwa [trimStart, List.takeWhile_append_dropWhile]
  refine infix_before hne (e := ((trimStart l).reverse.takeWhile isBlank).reverse)
    (fun c hc => ?_) ?_
  · exact not_mem_of_isBlank hw
      (List.all_eq_true.mp List.all_takeWhile c (List.mem_reverse.mp hc))
  · rwa [trim, trimEnd, ← List.reverse_append, List.takeWhile_append_dropWhile,
      List.reverse_reverse]

omit hne hw in
theorem isBlank_of_mem_blankOut {piece : List Char} {c : Char} (h : c ∈ blankOut piece) :
    isBlank c = true := by
  obtain ⟨hspace, hmark⟩ := isFill_of_mem_blankOut h
  simp only [isSpace, Bool.or_eq_true, beq_iff_eq] at hspace
  rcases hspace with (((rfl | rfl) | rfl) | rfl) | rfl
  · decide
  · decide
  · decide
  · decide
  · exact absurd rfl hmark

/-- Where a word stands in the text with comment lines blanked out, it stands in the text
itself. -/
theorem standsAt_of_mask {cs : List Char} {o : Nat} (h : StandsAt (mask cs) w o) :
    StandsAt cs w o := by
  have hforeign : ∀ piece, ∀ c ∈ blankOut piece, c ∉ w :=
    fun piece c hc => not_mem_of_isBlank hw (isBlank_of_mem_blankOut hc)
  obtain ⟨a, b, hmask, rfl⟩ := h
  induction cs using line_induction generalizing a with
  | nil => exact ⟨a, b, hmask, rfl⟩
  | last l hl hl' =>
    rw [mask_last hl hl'] at hmask
    split at hmask
    · rw [← List.append_nil (blankOut l)] at hmask
      obtain ⟨a', -, hnil⟩ := word_behind hne (hforeign _) hmask
      simp_all
    · exact ⟨a, b, hmask, rfl⟩
  | line l cs hl ih =>
    rw [mask_line hl] at hmask
    split at hmask
    · obtain ⟨a', rfl, hrest⟩ := word_behind hne (hforeign _) hmask
      obtain ⟨x, y, rfl, hlength⟩ := ih a' hrest
      refine ⟨l ++ '\n' :: x, y, by simp, ?_⟩
      rw [List.append_cons, byteLength_append, byteLength_append (blankOut _),
        byteLength_blankOut, hlength]
    · rw [← List.append_cons] at hmask
      rcases word_of_line hne (not_mem_of_isBlank hw (by decide)) hmask with
        ⟨r, rfl⟩ | ⟨a', rfl, hrest⟩
      · exact ⟨a, r ++ '\n' :: cs, by simp, rfl⟩
      · obtain ⟨x, y, rfl, hlength⟩ := ih a' hrest
        refine ⟨l ++ '\n' :: x, y, by simp, ?_⟩
        simp [hlength]

end Words

/-- A name holds no blanks. -/
theorem isBlank_of_isNameContinue {c : Char} (h : isNameContinue c = true) :
    isBlank c = false := by
  simp only [isNameContinue, isNameStart, isDigit, Bool.or_eq_true, Bool.and_eq_true,
    decide_eq_true_eq, beq_iff_eq] at h
  have hrange : ∀ a b : Char, '!' ≤ a → b ≤ '~' → a ≤ c ∧ c ≤ b → isBlank c = false :=
    fun a b ha hb h => isBlank_of_printed ⟨Char.le_trans ha h.1, Char.le_trans h.2 hb⟩
  rcases h with ((h | h) | rfl) | h
  · exact hrange 'a' 'z' (by decide) (by decide) h
  · exact hrange 'A' 'Z' (by decide) (by decide) h
  · decide
  · exact hrange '0' '9' (by decide) (by decide) h

theorem word_of_isName {name : String} (h : isName name = true) :
    name.toList ≠ [] ∧ ∀ c ∈ name.toList, isBlank c = false := by
  unfold isName at h
  split at h
  · cases h
  · next c cs hname =>
    rw [Bool.and_eq_true, List.all_eq_true] at h
    refine ⟨hname ▸ List.cons_ne_nil c cs, fun d hd => isBlank_of_isNameContinue ?_⟩
    rw [hname] at hd
    rcases List.mem_cons.mp hd with rfl | hd
    · rw [isNameContinue, h.1, Bool.true_or]
    · exact h.2 d hd

end SchemaLint.Source

namespace SchemaLint

open Text Sdl Source Rule

/-! ## Parts of a schema that have a name -/

/-- A type, or a member of a type. -/
inductive Element
  | type (d : Definition)
  | field (d : Definition) (f : Field)
  | argument (d : Definition) (f : Field) (a : InputValue)
  | inputField (d : Definition) (v : InputValue)
  | enumValue (d : Definition) (v : EnumValue)

namespace Element

def name : Element → Name
  | type d => d.name
  | field _ f => f.name
  | argument _ _ a => a.name
  | inputField _ v => v.name
  | enumValue _ v => v.name

/-- The type that it is, or that it is a member of. -/
def owner : Element → Definition
  | type d => d
  | field d _ => d
  | argument d _ _ => d
  | inputField d _ => d
  | enumValue d _ => d

/-- How the text of a finding quotes it. -/
def shown : Element → String
  | type d => ticked d.name.text
  | field d f => tickedMember d.name.text f.name.text
  | argument d f a => ticked a.name.text ++ " of field " ++ tickedMember d.name.text f.name.text
  | inputField d v => tickedMember d.name.text v.name.text
  | enumValue d v => tickedMember d.name.text v.name.text

/-- The names among which it has to be sorted. -/
def siblings : Element → List Name
  | type _ => []
  | field d _ => d.body.fields.map (·.name)
  | argument _ _ _ => []
  | inputField d _ => d.body.inputFields.map (·.name)
  | enumValue d _ => d.body.enumValues.map (·.name)

/-- It is a part of its type. -/
def Belongs : Element → Prop
  | type _ => True
  | field d f => f ∈ d.body.fields
  | argument d f a => f ∈ d.body.fields ∧ a ∈ f.arguments
  | inputField d v => v ∈ d.body.inputFields
  | enumValue d v => v ∈ d.body.enumValues

end Element

/-- The document holds the element. -/
def SchemaDocument.Holds (doc : SchemaDocument) (e : Element) : Prop :=
  e.owner ∈ doc.definitions ∧ e.Belongs

theorem Element.name_mem_marks {e : Element} (h : e.Belongs) : .name e.name ∈ e.owner.marks := by
  cases e with
  | type d => exact d.name_mem_marks
  | field d f => exact mem_marks_of_field (List.mem_map_of_mem h)
  | argument d f a =>
    obtain ⟨hf, ha⟩ := h
    have harguments : .name a.name ∈ f.marks :=
      List.mem_append_left _ (List.mem_append_right _
        (List.mem_flatMap.mpr ⟨a, ha, a.name_mem_marks⟩))
    exact d.fields_marks_sublist.subset (List.mem_flatMap.mpr ⟨f, hf, harguments⟩)
  | inputField d v => exact mem_marks_of_inputField (List.mem_map_of_mem h)
  | enumValue d v => exact mem_marks_of_enumValue (List.mem_map_of_mem h)

theorem SchemaDocument.Holds.name_mem_marks {doc : SchemaDocument} {e : Element}
    (h : doc.Holds e) : .name e.name ∈ doc.marks :=
  List.mem_flatMap.mpr ⟨e.owner, h.1, Element.name_mem_marks h.2⟩

/-- Every name of the document stands where its offset says, in the text with comment lines
blanked out. -/
def SchemaDocument.NamesStand (doc : SchemaDocument) : Prop :=
  ∀ n, .name n ∈ doc.marks →
    StandsAt (maskCommentLines doc.source).toList n.text.toList n.offset

/-- Names stand where they say unless the parser drops a token; faults alone do not move
them. -/
theorem namesStand_of_droppedBytes {source : String}
    (h : droppedBytes (maskCommentLines source) = 0) (path : String) :
    (SchemaDocument.parse path source).NamesStand := by
  intro n hn
  rw [parse_marks] at hn
  rw [parse_source]
  exact standsAt_of_mem_read_marks h hn

theorem namesStand_of_readable {path source : String}
    (h : (SchemaDocument.parse path source).syntaxErrors = []) :
    (SchemaDocument.parse path source).NamesStand :=
  namesStand_of_droppedBytes (droppedBytes_eq_zero_of_readable (syntaxErrors_eq_nil_iff.mp h)) path

-- An item that is no type is dropped from a list type without a trace, and the names behind
-- it then seem to stand earlier than they do.
example : (fieldsAreCamelCased.check (.parse "schema.graphql"
    "type a \x7b\n  b: [\"######\"]\n  c_: Int\n\x7d")).map (·.lineContent) =
      ["b: [\"######\"]"] := by
  decide +kernel

/-! ## What a finding is about -/

/-- The text puts nothing in quotes before this. -/
def QuotesFirst (text shown : String) : Prop :=
  ∃ before after, text = before ++ shown ++ after ∧ '\'' ∉ before.toList

theorem QuotesFirst.append {text shown : String} (h : QuotesFirst text shown) (more : String) :
    QuotesFirst (text ++ more) shown := by
  obtain ⟨before, after, rfl, hbefore⟩ := h
  exact ⟨before, after ++ more, by simp [String.append_assoc], hbefore⟩

/-- The names before it stand as in the sorted arrangement, and it does not. -/
def FirstMisplaced (name : Name) (names : List Name) : Prop :=
  ∃ before after expected behind, names = before ++ name :: after ∧
    sorted (names.map (·.text)) = before.map (·.text) ++ expected :: behind ∧
    name.text ≠ expected

/-- The finding stands on the line of the element and names it before anything else. -/
def SchemaDocument.Quotes (doc : SchemaDocument) (f : Finding) (e : Element) : Prop :=
  doc.Holds e ∧ f.line = doc.lineOfOffset e.name.offset ∧ QuotesFirst f.text e.shown

/-- The finding stands on the line of the first element that is out of order, and names the
type before anything else. -/
def SchemaDocument.Sorts (doc : SchemaDocument) (f : Finding) (e : Element) : Prop :=
  doc.Holds e ∧ f.line = doc.lineOfOffset e.name.offset ∧ FirstMisplaced e.name e.siblings ∧
    QuotesFirst f.text (ticked e.owner.name.text)

section Findings

variable {doc : SchemaDocument} {f : Finding}

/-! ### Rules on types -/

theorem quotes_typesAreCapitalized (hf : f ∈ typesAreCapitalized.findings doc) :
    ∃ e, doc.Quotes f e := by
  obtain ⟨d, hd, rfl⟩ := List.mem_map.mp hf
  have hmem := (mem_typesOf.mp (List.mem_of_mem_filter hd)).1
  exact ⟨.type d, ⟨hmem, trivial⟩, rfl, _, _, rfl, by decide⟩

theorem quotes_typesHaveDescriptions (hf : f ∈ typesHaveDescriptions.findings doc) :
    ∃ e, doc.Quotes f e := by
  obtain ⟨d, hd, rfl⟩ := List.mem_map.mp hf
  have hmem := (mem_typesOf.mp (List.mem_of_mem_filter hd)).1
  exact ⟨.type d, ⟨hmem, trivial⟩, rfl, _, _, rfl, by decide⟩

theorem quotes_definedTypesAreUsed (hf : f ∈ definedTypesAreUsed.findings doc) :
    ∃ e, doc.Quotes f e := by
  obtain ⟨d, hd, rfl⟩ := List.mem_map.mp hf
  exact ⟨.type d, ⟨List.mem_of_mem_filter hd, trivial⟩, rfl, _, _, rfl, by decide⟩

theorem quotes_relayConnectionTypes (hf : f ∈ relayConnectionTypes.findings doc) :
    ∃ e, doc.Quotes f e := by
  obtain ⟨d, hd, hf⟩ := List.mem_flatMap.mp hf
  obtain ⟨r, -, rfl⟩ := List.mem_map.mp hf
  have hmem := (mem_typesOf.mp (List.mem_of_mem_filter hd)).1
  have hquotes : QuotesFirst ("Connection type " ++ ticked d.name.text ++ " must have a ")
      (ticked d.name.text) := ⟨_, _, rfl, by decide⟩
  exact ⟨.type d, ⟨hmem, trivial⟩, rfl, (hquotes.append _).append _⟩

/-! ### Rules on members -/

/-- Most rules on members go through some of the definitions and pick out members. -/
theorem exists_of_mem_members {α : Type} {ds : List Definition} {members : Definition → List α}
    {test : α → Bool} {say : Definition → α → Finding}
    (h : f ∈ ds.flatMap fun d => ((members d).filter test).map (say d)) :
    ∃ d ∈ ds, ∃ x ∈ members d, say d x = f := by
  obtain ⟨d, hd, hf⟩ := List.mem_flatMap.mp h
  obtain ⟨x, hx, rfl⟩ := List.mem_map.mp hf
  exact ⟨d, hd, x, List.mem_of_mem_filter hx, rfl⟩

theorem quotes_fieldsHaveDescriptions (hf : f ∈ fieldsHaveDescriptions.findings doc) :
    ∃ e, doc.Quotes f e := by
  obtain ⟨d, hd, x, hx, rfl⟩ := exists_of_mem_members hf
  exact ⟨.field d x, ⟨(mem_objects.mp hd).1, hx⟩, rfl, _, _, rfl, by decide⟩

theorem quotes_fieldsAreCamelCased (hf : f ∈ fieldsAreCamelCased.findings doc) :
    ∃ e, doc.Quotes f e := by
  obtain ⟨d, hd, x, hx, rfl⟩ := exists_of_mem_members hf
  exact ⟨.field d x, ⟨(mem_objects.mp hd).1, hx⟩, rfl, _, _, rfl, by decide⟩

theorem quotes_relayConnectionArguments (hf : f ∈ relayConnectionArguments.findings doc) :
    ∃ e, doc.Quotes f e := by
  obtain ⟨d, hd, x, hx, rfl⟩ := exists_of_mem_members hf
  refine ⟨.field d x, ⟨(mem_withArguments.mp hd).1, hx⟩, rfl, QuotesFirst.append ?_ _⟩
  exact ⟨_, _, rfl, by decide⟩

theorem quotes_inputValuesHaveDescriptions (hf : f ∈ inputValuesHaveDescriptions.findings doc) :
    ∃ e, doc.Quotes f e := by
  obtain ⟨d, hd, x, hx, rfl⟩ := exists_of_mem_members hf
  exact ⟨.inputField d x, ⟨(mem_typesOf.mp hd).1, hx⟩, rfl, _, _, rfl, by decide⟩

theorem quotes_inputValuesAreCamelCased (hf : f ∈ inputValuesAreCamelCased.findings doc) :
    ∃ e, doc.Quotes f e := by
  obtain ⟨d, hd, x, hx, rfl⟩ := exists_of_mem_members hf
  exact ⟨.inputField d x, ⟨(mem_typesOf.mp hd).1, hx⟩, rfl, _, _, rfl, by decide⟩

theorem quotes_enumValuesHaveDescriptions (hf : f ∈ enumValuesHaveDescriptions.findings doc) :
    ∃ e, doc.Quotes f e := by
  obtain ⟨d, hd, x, hx, rfl⟩ := exists_of_mem_members hf
  exact ⟨.enumValue d x, ⟨(mem_typesOf.mp hd).1, hx⟩, rfl, _, _, rfl, by decide⟩

theorem quotes_deprecationsHaveAReason (hf : f ∈ deprecationsHaveAReason.findings doc) :
    ∃ e, doc.Quotes f e := by
  obtain ⟨d, hd, x, hx, rfl⟩ := exists_of_mem_members hf
  exact ⟨.enumValue d x, ⟨(mem_typesOf.mp hd).1, hx⟩, rfl, _, _, rfl, by decide⟩

theorem quotes_suspiciousEnumValue (hf : f ∈ suspiciousEnumValue.findings doc) :
    ∃ e, doc.Quotes f e := by
  obtain ⟨⟨owner, v⟩, hv, rfl⟩ := List.mem_map.mp hf
  obtain ⟨d, hd, hv⟩ := List.mem_flatMap.mp (List.mem_of_mem_filter hv)
  obtain ⟨v, hmem, hpair⟩ := List.mem_map.mp hv
  obtain ⟨rfl, rfl⟩ := Prod.mk.inj hpair
  refine ⟨.enumValue d v, ⟨hd, hmem⟩, rfl, QuotesFirst.append ?_ _⟩
  exact ⟨_, _, rfl, by decide⟩

/-! ### Rules on arguments and descriptions -/

theorem quotes_argumentsHaveDescriptions (hf : f ∈ argumentsHaveDescriptions.findings doc) :
    ∃ e, doc.Quotes f e := by
  obtain ⟨d, hd, hf⟩ := List.mem_flatMap.mp hf
  obtain ⟨x, hx, hf⟩ := List.mem_flatMap.mp hf
  obtain ⟨a, ha, rfl⟩ := List.mem_map.mp hf
  refine ⟨.argument d x a, ⟨(mem_withArguments.mp hd).1, hx, List.mem_of_mem_filter ha⟩, rfl,
    "The argument ", " is missing a description.", ?_, by decide⟩
  simp only [SchemaDocument.finding, Element.shown, String.append_assoc]

/-- What can be described is an element, and it is spoken of as such. -/
def Rule.Described.Is (p : Described) (e : Element) : Prop :=
  p.name = e.name ∧ e.Belongs ∧ ∃ before, p.subject = before ++ e.shown ∧ '\'' ∉ before.toList

theorem exists_element_of_mem_describedField {d : Definition} {x : Field}
    (hx : x ∈ d.body.fields) {p : Described} (hp : p ∈ describedField d.name.text x) :
    ∃ e : Element, e.owner = d ∧ p.Is e := by
  rcases List.mem_cons.mp hp with rfl | hp
  · exact ⟨.field d x, rfl, rfl, hx, _, rfl, by decide⟩
  · obtain ⟨a, ha, rfl⟩ := List.mem_map.mp hp
    refine ⟨.argument d x a, rfl, rfl, ⟨hx, ha⟩, "argument ", ?_, by decide⟩
    simp only [Element.shown, String.append_assoc]

theorem exists_element_of_mem_describedMembers {d : Definition} {p : Described}
    (hp : p ∈ describedMembers d) : ∃ e : Element, e.owner = d ∧ p.Is e := by
  have hfields : ∀ {fields}, d.body.fields = fields →
      p ∈ fields.flatMap (describedField d.name.text) → ∃ e : Element, e.owner = d ∧ p.Is e := by
    rintro _ rfl hp
    obtain ⟨x, hx, hp⟩ := List.mem_flatMap.mp hp
    exact exists_element_of_mem_describedField hx hp
  unfold describedMembers at hp
  dsimp only at hp
  split at hp
  · next hbody => exact hfields (by rw [hbody]; rfl) hp
  · next hbody =>
    split at hp
    · cases hp
    · exact hfields (by rw [hbody]; rfl) hp
  · next hbody =>
    split at hp
    · cases hp
    · obtain ⟨v, hv, rfl⟩ := List.mem_map.mp hp
      exact ⟨.inputField d v, rfl, rfl, by rw [Element.Belongs, hbody]; exact hv, _, rfl, by decide⟩
  · next hbody =>
    split at hp
    · cases hp
    · obtain ⟨v, hv, rfl⟩ := List.mem_map.mp hp
      exact ⟨.enumValue d v, rfl, rfl, by rw [Element.Belongs, hbody]; exact hv, _, rfl, by decide⟩
  · cases hp
  · cases hp

theorem quotes_descriptionsAreCapitalized (hf : f ∈ descriptionsAreCapitalized.findings doc) :
    ∃ e, doc.Quotes f e := by
  obtain ⟨p, hp, rfl⟩ := List.mem_map.mp hf
  obtain ⟨d, hd, hp⟩ := List.mem_flatMap.mp (List.mem_of_mem_filter hp)
  have his : ∃ e : Element, e.owner = d ∧ p.Is e := by
    rcases List.mem_cons.mp hp with rfl | hp
    · exact ⟨.type d, rfl, rfl, trivial, _, rfl, by decide⟩
    · exact exists_element_of_mem_describedMembers hp
  obtain ⟨e, rfl, hname, hbelongs, before, hsubject, hbefore⟩ := his
  refine ⟨e, ⟨hd, hbelongs⟩, by rw [SchemaDocument.finding, hname],
    "The description for " ++ before, " should be capitalized.", ?_, ?_⟩
  · simp only [SchemaDocument.finding, hsubject, String.append_assoc]
  · rw [String.toList_append, List.mem_append, not_or]
    exact ⟨by decide, hbefore⟩

/-! ### Rules on order -/

/-- Two lists that differ somewhere agree up to the first difference. -/
theorem exists_shared_of_findIdx? {xs ys : List String} {i : Nat}
    (h : (xs.zip ys).findIdx? (fun p => p.1 != p.2) = some i) :
    ∃ shared x xs' y ys', xs = shared ++ x :: xs' ∧ ys = shared ++ y :: ys' ∧ x ≠ y ∧
      shared.length = i := by
  induction xs generalizing ys i with
  | nil => cases h
  | cons x xs ih =>
    cases ys with
    | nil => cases h
    | cons y ys =>
      rw [List.zip_cons_cons, List.findIdx?_cons] at h
      by_cases hxy : x = y
      · subst hxy
        rw [if_neg (by simp)] at h
        obtain ⟨j, hj, rfl⟩ := Option.map_eq_some_iff.mp h
        obtain ⟨shared, x', xs', y', ys', rfl, rfl, hne, rfl⟩ := ih hj
        exact ⟨x :: shared, x', xs', y', ys', rfl, rfl, hne, rfl⟩
      · rw [if_pos (by simpa using hxy)] at h
        exact ⟨[], x, xs, y, ys, rfl, rfl, hxy, Option.some.inj h⟩

theorem firstMisplaced_of_firstUnsorted? {names : List Name} {name : Name} {i : Nat}
    (h : firstUnsorted? (names.map (·.text)) = some i) (hname : names[i]? = some name) :
    FirstMisplaced name names := by
  obtain ⟨shared, seen, xs, expected, ys, hseen, hsorted, hne, rfl⟩ := exists_shared_of_findIdx? h
  obtain ⟨before, rest, rfl, rfl, hrest⟩ := List.map_eq_append_iff.mp hseen
  obtain ⟨member, after, rfl, rfl, -⟩ := List.map_eq_cons_iff.mp hrest
  rw [List.length_map, List.getElem?_append_right (Nat.le_refl _), Nat.sub_self] at hname
  obtain rfl := Option.some.inj hname
  exact ⟨before, after, expected, ys, rfl, hsorted, hne⟩

theorem exists_of_mem_unsortedTypes {kind : TypeKind} {subject : String}
    (hsubject : '\'' ∉ subject.toList) {members : Definition → List Name}
    (hf : f ∈ unsortedTypes doc kind subject members) :
    ∃ d ∈ doc.definitions, ∃ name ∈ members d, f.line = doc.lineOfOffset name.offset ∧
      FirstMisplaced name (members d) ∧ QuotesFirst f.text (ticked d.name.text) := by
  obtain ⟨d, hd, hf⟩ := List.mem_filterMap.mp hf
  obtain ⟨i, hi, hf⟩ := Option.bind_eq_some_iff.mp hf
  obtain ⟨name, hname, rfl⟩ := Option.map_eq_some_iff.mp hf
  have hquotes : QuotesFirst (subject ++ " " ++ ticked d.name.text) (ticked d.name.text) := by
    refine ⟨subject ++ " ", "", by simp, ?_⟩
    rw [String.toList_append, List.mem_append, not_or]
    exact ⟨hsubject, by decide⟩
  exact ⟨d, (mem_typesOf.mp hd).1, name, List.mem_of_getElem? hname, rfl,
    firstMisplaced_of_firstUnsorted? hi hname, (hquotes.append _).append _⟩

theorem sorts_enumValuesSorted (hf : f ∈ enumValuesSorted.findings doc) :
    ∃ e, doc.Sorts f e := by
  simp only [enumValuesSorted, List.mem_map] at hf
  obtain ⟨f, hf, rfl⟩ := hf
  obtain ⟨d, hd, _, hname, h⟩ := exists_of_mem_unsortedTypes (by decide) hf
  obtain ⟨v, hv, rfl⟩ := List.mem_map.mp hname
  exact ⟨.enumValue d v, ⟨hd, hv⟩, h⟩

theorem sorts_inputFieldsSorted (hf : f ∈ inputFieldsSorted.findings doc) :
    ∃ e, doc.Sorts f e := by
  obtain ⟨d, hd, _, hname, h⟩ := exists_of_mem_unsortedTypes (by decide) hf
  obtain ⟨v, hv, rfl⟩ := List.mem_map.mp hname
  exact ⟨.inputField d v, ⟨hd, hv⟩, h⟩

theorem sorts_typeFieldsSorted (hf : f ∈ typeFieldsSorted.findings doc) :
    ∃ e, doc.Sorts f e := by
  obtain ⟨d, hd, _, hname, h⟩ := exists_of_mem_unsortedTypes (by decide) hf
  obtain ⟨x, hx, rfl⟩ := List.mem_map.mp hname
  exact ⟨.field d x, ⟨hd, hx⟩, h⟩

theorem sorts_interfaceFieldsSorted (hf : f ∈ interfaceFieldsSorted.findings doc) :
    ∃ e, doc.Sorts f e := by
  obtain ⟨d, hd, _, hname, h⟩ := exists_of_mem_unsortedTypes (by decide) hf
  obtain ⟨x, hx, rfl⟩ := List.mem_map.mp hname
  exact ⟨.field d x, ⟨hd, hx⟩, h⟩

/-! ### All of them -/

/-- Rules that point at the name of what they complain about and quote it. -/
def quotingRules : List Rule :=
  [typesAreCapitalized, typesHaveDescriptions, fieldsHaveDescriptions, fieldsAreCamelCased,
    argumentsHaveDescriptions, enumValuesHaveDescriptions, inputValuesHaveDescriptions,
    inputValuesAreCamelCased, deprecationsHaveAReason, descriptionsAreCapitalized,
    relayConnectionTypes, relayConnectionArguments, definedTypesAreUsed, suspiciousEnumValue]

/-- Rules that point at the name of the first member out of order and quote its type. -/
def sortingRules : List Rule :=
  [enumValuesSorted, inputFieldsSorted, typeFieldsSorted, interfaceFieldsSorted]

theorem exists_quoted {rule : Rule} (hrule : rule ∈ quotingRules) (hf : f ∈ rule.findings doc) :
    ∃ e, doc.Quotes f e := by
  simp only [quotingRules, List.mem_cons, List.not_mem_nil, or_false] at hrule
  rcases hrule with rfl | rfl | rfl | rfl | rfl | rfl | rfl | rfl | rfl | rfl | rfl | rfl | rfl | rfl
  · exact quotes_typesAreCapitalized hf
  · exact quotes_typesHaveDescriptions hf
  · exact quotes_fieldsHaveDescriptions hf
  · exact quotes_fieldsAreCamelCased hf
  · exact quotes_argumentsHaveDescriptions hf
  · exact quotes_enumValuesHaveDescriptions hf
  · exact quotes_inputValuesHaveDescriptions hf
  · exact quotes_inputValuesAreCamelCased hf
  · exact quotes_deprecationsHaveAReason hf
  · exact quotes_descriptionsAreCapitalized hf
  · exact quotes_relayConnectionTypes hf
  · exact quotes_relayConnectionArguments hf
  · exact quotes_definedTypesAreUsed hf
  · exact quotes_suspiciousEnumValue hf

theorem exists_sorted {rule : Rule} (hrule : rule ∈ sortingRules) (hf : f ∈ rule.findings doc) :
    ∃ e, doc.Sorts f e := by
  simp only [sortingRules, List.mem_cons, List.not_mem_nil, or_false] at hrule
  rcases hrule with rfl | rfl | rfl | rfl
  · exact sorts_enumValuesSorted hf
  · exact sorts_inputFieldsSorted hf
  · exact sorts_typeFieldsSorted hf
  · exact sorts_interfaceFieldsSorted hf

end Findings

/-! ## The line of a diagnostic -/

theorem pointing_subset_catalogue : quotingRules ++ sortingRules ⊆ catalogue := by
  simp only [quotingRules, sortingRules, catalogue, List.cons_append, List.nil_append,
    List.cons_subset, List.nil_subset, List.mem_cons, true_or, or_true, and_self]

theorem toList_lineContent {source : String} {n : Nat} {line : List Char}
    (h : (lines source.toList)[n]? = some line) :
    (lineContent source (n + 1)).toList = trim line := by
  simp only [lineContent, contentOf, h, String.toList_ofList]

/-- The line of a name holds it, and what a diagnostic shows of that line does too. -/
theorem infix_line_of_name {doc : SchemaDocument} {n : Name} (hname : isName n.text = true)
    (hstands : StandsAt (maskCommentLines doc.source).toList n.text.toList n.offset) :
    ∃ line, (lines doc.source.toList)[doc.lineOfOffset n.offset - 1]? = some line ∧
      n.text.toList <:+: line ∧
      n.text.toList <:+: (lineContent doc.source (doc.lineOfOffset n.offset)).toList := by
  obtain ⟨hne, hblank⟩ := word_of_isName hname
  rw [toList_maskCommentLines] at hstands
  obtain ⟨line, hline, hinfix⟩ := infix_lineOfOffset hne (not_mem_of_isBlank hblank (by decide))
    (not_mem_of_isBlank hblank (by decide)) (standsAt_of_mask hne hblank hstands)
  rw [← lineOfOffset_eq] at hline
  refine ⟨line, hline, hinfix, ?_⟩
  rw [← Nat.sub_add_cancel (one_le_lineOfOffset doc n.offset), toList_lineContent hline]
  exact infix_trim hne hblank hinfix

theorem isName_of_mem_marks {path source : String} {n : Name}
    (h : .name n ∈ (SchemaDocument.parse path source).marks) : isName n.text = true := by
  rw [parse_marks] at h
  exact isName_of_mem_reading h

/-- Whether or not a text can be read, the diagnostics of the rules that point at names are
on lines of the text. Each is about a type, a field, an argument or an enum value of the
document, on the line of its name: the one that its text quotes first, or the first member
out of order of the type that its text quotes first. If names stand where the parser says,
that line of the text holds the name, comment lines and all line endings counted, and so
does what the diagnostic shows of it. -/
theorem check_on_line_of_name {path source : String} {rule : Rule}
    (hrule : rule ∈ quotingRules ++ sortingRules) {d : Diagnostic}
    (hd : d ∈ rule.check (.parse path source)) :
    1 ≤ d.line ∧ d.line ≤ (SchemaDocument.parse path source).lineCount ∧
    ∃ e, (SchemaDocument.parse path source).Holds e ∧
      d.line = (SchemaDocument.parse path source).lineOfOffset e.name.offset ∧
      (rule ∈ quotingRules ∧ QuotesFirst d.text e.shown ∨
        rule ∈ sortingRules ∧ FirstMisplaced e.name e.siblings ∧
          QuotesFirst d.text (ticked e.owner.name.text)) ∧
      ((SchemaDocument.parse path source).NamesStand →
        ∃ line, (lines source.toList)[d.line - 1]? = some line ∧
          e.name.text.toList <:+: line ∧ e.name.text.toList <:+: d.lineContent.toList) := by
  obtain ⟨f, hf, hstates⟩ := exists_finding_of_mem_check (pointing_subset_catalogue hrule) hd
  have habout : ∃ e, (SchemaDocument.parse path source).Holds e ∧
      f.line = (SchemaDocument.parse path source).lineOfOffset e.name.offset ∧
      (rule ∈ quotingRules ∧ QuotesFirst f.text e.shown ∨
        rule ∈ sortingRules ∧ FirstMisplaced e.name e.siblings ∧
          QuotesFirst f.text (ticked e.owner.name.text)) := by
    rcases List.mem_append.mp hrule with hrule | hrule
    · obtain ⟨e, hholds, hline, hquotes⟩ := exists_quoted hrule hf
      exact ⟨e, hholds, hline, .inl ⟨hrule, hquotes⟩⟩
    · obtain ⟨e, hholds, hline, hsorts⟩ := exists_sorted hrule hf
      exact ⟨e, hholds, hline, .inr ⟨hrule, hsorts⟩⟩
  obtain ⟨e, hholds, hline, habout⟩ := habout
  rw [← hstates.line] at hline
  rw [← hstates.text] at habout
  refine ⟨hline ▸ one_le_lineOfOffset _ _, hline ▸ lineOfOffset_le _ _, e, hholds, hline, habout,
    fun hstand => ?_⟩
  have hmark := hholds.name_mem_marks
  have hfound := infix_line_of_name (isName_of_mem_marks hmark) (hstand e.name hmark)
  rw [← hline, parse_source] at hfound
  rwa [hstates.lineContent, ← hstates.line, parse_source]

/-- A text with a multi-byte comment line, a carriage return on its own, a missing brace and
no line feed at its end. -/
theorem check_on_line_of_name_brokenText :
    ∃ d ∈ fieldsAreCamelCased.check
        (.parse "schema.graphql" "// é\r\n\"ü\" type a \x7b\r b_: Int"),
      fieldsAreCamelCased ∈ quotingRules ++ sortingRules ∧ d.line = 2 ∧
        ∃ e, (SchemaDocument.parse "schema.graphql"
            "// é\r\n\"ü\" type a \x7b\r b_: Int").Holds e ∧
          e.name.text.toList <:+: "\"ü\" type a \x7b\r b_: Int".toList ∧
          e.name.text.toList <:+: d.lineContent.toList := by
  have hlines : (fieldsAreCamelCased.check (.parse "schema.graphql"
      "// é\r\n\"ü\" type a \x7b\r b_: Int")).map (·.line) = [2] := by
    decide +kernel
  have hdropped : droppedBytes
      (maskCommentLines "// é\r\n\"ü\" type a \x7b\r b_: Int") = 0 := by
    decide +kernel
  have hsecond : (lines "// é\r\n\"ü\" type a \x7b\r b_: Int".toList)[1]? =
      some "\"ü\" type a \x7b\r b_: Int".toList := by
    decide +kernel
  have hrule : fieldsAreCamelCased ∈ quotingRules ++ sortingRules := by
    simp [quotingRules]
  obtain ⟨d, hd, hline⟩ := List.mem_map.mp (hlines ▸ List.mem_singleton_self 2)
  obtain ⟨-, -, e, hholds, -, -, hfound⟩ := check_on_line_of_name hrule hd
  obtain ⟨line, hget, hinfix, hshown⟩ := hfound (namesStand_of_droppedBytes hdropped _)
  rw [hline, hsecond] at hget
  obtain rfl := Option.some.inj hget
  exact ⟨d, hd, hrule, hline, e, hholds, hinfix, hshown⟩

end SchemaLint
