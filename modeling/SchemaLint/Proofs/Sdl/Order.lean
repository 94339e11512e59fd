import Mathlib.Data.List.Basic
import SchemaLint.Proofs.Sdl.Walks
import SchemaLint.Text.Bytes

/-!
# Definitions in the order of the text

In a text without faults the names and directives of the definitions that are
read are tokens of the text, each taken at most once and from front to back. So
their positions never go down, and every name is a name of the schema language.
-/

namespace SchemaLint.Sdl

open Text

/-! ## Positions of lexemes -/

theorem offset_le_of_mem_lexemesFrom {skip offset : Nat} {cs : List Char} {l : Lexeme}
    (h : l ∈ lexemesFrom skip offset cs) : offset ≤ l.offset := by
  fun_induction lexemesFrom skip offset cs with
  | case1 => simp at h
  | case2 offset skip c cs ih =>
    have := ih h
    omega
  | case3 offset c cs s ih =>
    rcases List.mem_cons.mp h with rfl | h
    · exact Nat.le_refl _
    · have := ih h
      omega

theorem offset_lt_of_mem_lexemesFrom {skip offset : Nat} {cs : List Char} {l : Lexeme}
    (h : l ∈ lexemesFrom skip offset cs) : l.offset < offset + byteLength cs := by
  fun_induction lexemesFrom skip offset cs with
  | case1 => simp at h
  | case2 offset skip c cs ih =>
    have := ih h
    rw [byteLength_cons]
    omega
  | case3 offset c cs s ih =>
    have hpos := c.utf8Size_pos
    rw [byteLength_cons]
    rcases List.mem_cons.mp h with rfl | h
    · show offset < _
      omega
    · have := ih h
      omega

theorem lexemesFrom_pairwise (skip offset : Nat) (cs : List Char) :
    (lexemesFrom skip offset cs).Pairwise (·.offset < ·.offset) := by
  fun_induction lexemesFrom skip offset cs with
  | case1 => exact .nil
  | case2 offset skip c cs ih => exact ih
  | case3 offset c cs s ih =>
    refine List.pairwise_cons.mpr ⟨fun l hl => ?_, ih⟩
    have hle := offset_le_of_mem_lexemesFrom hl
    have hpos := c.utf8Size_pos
    show offset < l.offset
    omega

/-- Where a lexeme stands in the text. -/
theorem exists_append_of_mem_lexemesFrom {skip offset : Nat} {cs : List Char} {l : Lexeme}
    (h : l ∈ lexemesFrom skip offset cs) :
    ∃ a b, cs = a ++ (l.text.toList ++ b) ∧ l.offset = offset + byteLength a := by
  induction cs generalizing skip offset with
  | nil => cases h
  | cons c cs ih =>
    have hrest : ∀ {skip}, l ∈ lexemesFrom skip (offset + c.utf8Size) cs →
        ∃ a b, c :: cs = a ++ (l.text.toList ++ b) ∧ l.offset = offset + byteLength a := by
      intro skip h
      obtain ⟨a, b, hcs, hoffset⟩ := ih h
      refine ⟨c :: a, b, congrArg (c :: ·) hcs, ?_⟩
      rw [hoffset, byteLength_cons, Nat.add_assoc]
    cases skip with
    | succ skip => exact hrest h
    | zero =>
      obtain rfl | h := List.mem_cons.mp h
      · refine ⟨[], cs.drop (scan c cs).more, ?_, rfl⟩
        rw [String.toList_ofList, List.nil_append, List.cons_append, List.take_append_drop]
      · exact hrest h

/-! ## Names and directives -/

/-- The scan takes what it sees neither for a name nor for the start of a directive. -/
def Scan.NoMark (s : Scan) : Prop := s.kind ≠ .token .name ∧ s.kind ≠ .token .atSign

theorem noMark_fault (more : Nat) (f : LexicalFault) : (Scan.fault more f).NoMark := by
  simp [Scan.NoMark, Scan.fault]

theorem noMark_token {kind : TokenKind} (more : Nat) (h : kind ≠ .name ∧ kind ≠ .atSign) :
    (Scan.token more kind).NoMark := by
  simpa [Scan.NoMark, Scan.token] using h

theorem scanExponentDigits_noMark (more : Nat) (cs : List Char) :
    (scanExponentDigits more cs).NoMark := by
  fun_induction scanExponentDigits more cs with
  | case1 => exact noMark_token _ (by decide)
  | case2 more c cs _ ih => exact ih
  | case3 => exact noMark_fault _ _
  | case4 => exact noMark_token _ (by decide)

theorem scanExponent_noMark (more : Nat) (cs : List Char) : (scanExponent more cs).NoMark := by
  have hsigned : ∀ more cs, (scanExponentSigned more cs).NoMark := by
    intro more cs
    unfold scanExponentSigned
    split
    · exact noMark_fault _ _
    · split
      · exact scanExponentDigits_noMark _ _
      · exact noMark_fault _ _
  unfold scanExponent
  split
  · exact noMark_fault _ _
  · split
    · exact scanExponentDigits_noMark _ _
    · split
      · exact hsigned _ _
      · exact noMark_fault _ _

theorem scanFraction_noMark (more : Nat) (cs : List Char) : (scanFraction more cs).NoMark := by
  fun_induction scanFraction more cs with
  | case1 => exact noMark_token _ (by decide)
  | case2 more c cs _ ih => exact ih
  | case3 => exact scanExponent_noMark _ _
  | case4 => exact noMark_fault _ _
  | case5 => exact noMark_token _ (by decide)

theorem scanPoint_noMark (more : Nat) (cs : List Char) : (scanPoint more cs).NoMark := by
  unfold scanPoint
  split
  · exact noMark_fault _ _
  · split
    · exact scanFraction_noMark _ _
    · exact noMark_fault _ _

theorem scanInteger_noMark (more : Nat) (cs : List Char) : (scanInteger more cs).NoMark := by
  fun_induction scanInteger more cs with
  | case1 => exact noMark_token _ (by decide)
  | case2 more c cs _ ih => exact ih
  | case3 => exact scanPoint_noMark _ _
  | case4 => exact scanExponent_noMark _ _
  | case5 => exact noMark_fault _ _
  | case6 => exact noMark_token _ (by decide)

theorem scanSpread_noMark (cs : List Char) : (scanSpread cs).NoMark := by
  unfold scanSpread
  split
  · exact noMark_token _ (by decide)
  · exact noMark_fault _ _
  · exact noMark_fault _ _

theorem scanZero_noMark (more : Nat) (cs : List Char) : (scanZero more cs).NoMark := by
  unfold scanZero
  split
  · exact noMark_token _ (by decide)
  · repeat' split
    · exact noMark_fault _ _
    · exact scanPoint_noMark _ _
    · exact scanExponent_noMark _ _
    · exact noMark_fault _ _
    · exact noMark_token _ (by decide)

theorem scanMinus_noMark (cs : List Char) : (scanMinus cs).NoMark := by
  unfold scanMinus
  split
  · exact noMark_fault _ _
  · repeat' split
    · exact scanZero_noMark _ _
    · exact scanInteger_noMark _ _
    · exact noMark_fault _ _

theorem scanBlockString_noMark (more : Nat) (cs : List Char) :
    (scanBlockString more cs).NoMark := by
  fun_induction scanBlockString more cs with
  | case1 => exact noMark_token _ (by decide)
  | case6 => exact noMark_fault _ _
  | case2 more cs ih | case3 more cs _ ih | case4 more cs _ _ ih | case5 more c cs _ _ _ _ ih =>
    exact ih

theorem scanString_noMark (mode : StringMode) (noted : Option LexicalFault) (more : Nat)
    (cs : List Char) : (scanString mode noted more cs).NoMark := by
  fun_induction scanString mode noted more cs with
  | case1 => exact noMark_fault _ _
  | case2 => exact noMark_token _ (by decide)
  | case3 => exact noMark_fault _ _
  | case4 => assumption
  | case5 => assumption

theorem scanQuote_noMark (cs : List Char) : (scanQuote cs).NoMark := by
  unfold scanQuote
  split
  · exact noMark_fault _ _
  · exact scanBlockString_noMark _ _
  · exact noMark_token _ (by decide)
  · exact scanString_noMark _ _ _ _
  · exact scanString_noMark _ _ _ _

/-- A character that stands alone is neither a name nor a string. -/
theorem punctuator?_ne (c : Char) : punctuator? c ≠ some .name ∧ punctuator? c ≠ some .string := by
  unfold punctuator?
  split <;> simp

/-- A name starts with a letter or underscore and goes on as long as it can. -/
theorem scan_name {c : Char} {cs : List Char} (h : (scan c cs).kind = .token .name) :
    isNameStart c = true ∧ (scan c cs).more = (cs.takeWhile isNameContinue).length := by
  have hno : ∀ {s : Scan}, s.NoMark → s.kind = .token .name → False := fun hs hk => hs.1 hk
  unfold scan at h ⊢
  split at h
  · next kind hc =>
    obtain rfl : kind = .name := by simpa [Scan.token] using h
    exact absurd hc (punctuator?_ne c).1
  · next hc =>
    by_cases hn : isNameStart c = true
    · rw [if_pos hn]
      exact ⟨hn, rfl⟩
    · rw [if_neg hn] at h
      repeat' split at h
      · cases h
      · cases h
      · cases h
      · exact (hno (scanQuote_noMark _) h).elim
      · exact (hno (scanSpread_noMark _) h).elim
      · exact (hno (scanMinus_noMark _) h).elim
      · exact (hno (scanZero_noMark _ _) h).elim
      · exact (hno (scanInteger_noMark _ _) h).elim
      · cases h

/-- A directive starts with an at sign, which stands alone. -/
theorem scan_atSign {c : Char} {cs : List Char} (h : (scan c cs).kind = .token .atSign) :
    c = '@' ∧ (scan c cs).more = 0 := by
  have hno : ∀ {s : Scan}, s.NoMark → s.kind = .token .atSign → False := fun hs hk => hs.2 hk
  unfold scan at h ⊢
  split at h
  · next kind hc =>
    obtain rfl : kind = .atSign := by simpa [Scan.token] using h
    refine ⟨?_, rfl⟩
    unfold punctuator? at hc
    split at hc <;> cases hc
    rfl
  · repeat' split at h
    · cases h
    · cases h
    · cases h
    · cases h
    · exact (hno (scanQuote_noMark _) h).elim
    · exact (hno (scanSpread_noMark _) h).elim
    · exact (hno (scanMinus_noMark _) h).elim
    · exact (hno (scanZero_noMark _ _) h).elim
    · exact (hno (scanInteger_noMark _ _) h).elim
    · cases h

theorem text_of_mem_lexemesFrom {skip offset : Nat} {cs : List Char} {l : Lexeme}
    (h : l ∈ lexemesFrom skip offset cs) (hk : l.kind = .token .atSign) : l.text = "@" := by
  fun_induction lexemesFrom skip offset cs with
  | case1 => simp at h
  | case2 offset skip c cs ih => exact ih h
  | case3 offset c cs s ih =>
    rcases List.mem_cons.mp h with rfl | h
    · obtain ⟨rfl, hmore⟩ := scan_atSign hk
      show String.ofList ('@' :: cs.take (scan '@' cs).more) = "@"
      rw [hmore]
      rfl
    · exact ih h

theorem isName_of_mem_lexemesFrom {skip offset : Nat} {cs : List Char} {l : Lexeme}
    (h : l ∈ lexemesFrom skip offset cs) (hk : l.kind = .token .name) : isName l.text = true := by
  fun_induction lexemesFrom skip offset cs with
  | case1 => simp at h
  | case2 offset skip c cs ih => exact ih h
  | case3 offset c cs s ih =>
    rcases List.mem_cons.mp h with rfl | h
    · obtain ⟨hc, hmore⟩ := scan_name hk
      have htake : cs.take s.more = cs.takeWhile isNameContinue := by
        rw [hmore]
        exact (List.prefix_iff_eq_take.mp (List.takeWhile_prefix _)).symm
      simp only [isName, htake, String.toList_ofList, hc, Bool.true_and]
      exact List.all_takeWhile
    · exact ih h

/-! ## Tokens as marks -/

/-- The mark that a lexeme can leave when nothing was dropped. -/
def Lexeme.mark? (l : Lexeme) : Option Mark :=
  match l.kind with
  | .token kind => Token.mark? 0 ⟨kind, l.text, l.offset, []⟩
  | _ => none

theorem filterMap_mark?_gather (ending : Nat) (trivia : List Trivia) (ls : List Lexeme) :
    (gather ending trivia ls).filterMap (Token.mark? 0) = ls.filterMap Lexeme.mark? := by
  induction ls generalizing trivia with
  | nil => rfl
  | cons l ls ih =>
    rw [List.filterMap_cons, gather, Lexeme.mark?]
    cases hk : l.kind with
    | token kind =>
      rw [List.filterMap_cons, ih]
      rfl
    | trivia kind => exact ih _
    | fault f => exact ih _

theorem mark?_offset {t : Token} {m : Mark} (h : t.mark? 0 = some m) : m.offset = t.offset := by
  unfold Token.mark? at h
  repeat' split at h
  · obtain rfl := Option.some.inj h
    rfl
  · obtain rfl := Option.some.inj h
    rfl
  · cases h

theorem lexeme_mark?_offset {l : Lexeme} {m : Mark} (h : l.mark? = some m) :
    m.offset = l.offset := by
  unfold Lexeme.mark? at h
  split at h
  · exact mark?_offset h
  · cases h

theorem tokens_marks_pairwise (text : String) :
    ((tokens text).filterMap (Token.mark? 0)).Pairwise (·.offset < ·.offset) := by
  rw [tokens, filterMap_mark?_gather]
  refine (lexemesFrom_pairwise 0 0 text.toList).filterMap _ fun a b hab m hm n hn => ?_
  rw [lexeme_mark?_offset hm, lexeme_mark?_offset hn]
  exact hab

theorem offset_lt_of_mem_tokens_marks {text : String} {m : Mark}
    (h : m ∈ (tokens text).filterMap (Token.mark? 0)) : m.offset < byteLength text.toList := by
  rw [tokens, filterMap_mark?_gather] at h
  obtain ⟨l, hl, hm⟩ := List.mem_filterMap.mp h
  have hlt := offset_lt_of_mem_lexemesFrom hl
  rwa [lexeme_mark?_offset hm, ← Nat.zero_add (byteLength _)]

theorem isName_of_mem_tokens_marks {text : String} {n : Name}
    (h : Mark.name n ∈ (tokens text).filterMap (Token.mark? 0)) : isName n.text = true := by
  rw [tokens, filterMap_mark?_gather] at h
  obtain ⟨l, hl, hm⟩ := List.mem_filterMap.mp h
  unfold Lexeme.mark? Token.mark? at hm
  split at hm
  · next kind hk =>
    dsimp only at hm
    repeat' split at hm
    · next hname =>
      obtain rfl := Mark.name.inj (Option.some.inj hm)
      exact isName_of_mem_lexemesFrom hl (hname ▸ hk)
    · cases hm
    · cases hm
  · cases hm

/-! ## Readings without faults -/

theorem Move.marks_sublist {s t : State} {ms : List Mark} (h : Move s ms t) (hs : s.Honest)
    (ht : t.faults = []) :
    (ms ++ t.ahead.filterMap (Token.mark? 0)).Sublist (s.ahead.filterMap (Token.mark? 0)) := by
  cases h with
  | pass => exact (List.tail_sublist _).filterMap _
  | keep ha hm =>
    have hdropped : s.dropped = 0 := by
      by_contra hne
      exact hs.dropped hne ht
    rw [hdropped] at hm
    rw [ha, List.filterMap_cons_some hm]
    exact .refl _
  | note | mute => exact .refl _
  | drop ha =>
    rw [ha]
    exact (List.sublist_cons_self _ _).filterMap _

/-- A path without faults keeps tokens that lie ahead, in their order. -/
theorem Path.marks_sublist {s t : State} {ms : List Mark} (h : Path s ms t) (hs : s.Honest)
    (ht : t.faults = []) :
    (ms ++ t.ahead.filterMap (Token.mark? 0)).Sublist (s.ahead.filterMap (Token.mark? 0)) := by
  induction h with
  | nil => exact .refl _
  | cons move path ih =>
    rw [List.append_assoc]
    have hrest := ih (move.honest hs) ht
    exact (hrest.append_left _).trans (move.marks_sublist hs (path.faults_eq_nil ht))

theorem read_faults_eq_nil_iff (text : String) :
    (read text).faults = [] ↔
      lexicalFaults (lexemes text) = [] ∧
        (Parser.document (.start (tokens text))).2.faults = [] := by
  have hperm : (read text).faults.Perm (lexicalFaults (lexemes text) ++
      (Parser.document (.start (tokens text))).2.faults.reverse) :=
    List.merge_perm_append _
  constructor
  · intro h
    rw [h, List.nil_perm, List.append_eq_nil_iff, List.reverse_eq_nil_iff] at hperm
    exact hperm
  · rintro ⟨hl, hg⟩
    rwa [hl, hg, List.reverse_nil, List.append_nil, List.perm_nil] at hperm

/-- The names and directives of what is read without a fault are tokens of the text,
in the order of the text. -/
theorem read_marks_sublist {text : String} (h : (read text).faults = []) :
    ((read text).definitions.flatMap Definition.marks).Sublist
      ((tokens text).filterMap (Token.mark? 0)) := by
  have hfaults := ((read_faults_eq_nil_iff text).mp h).2
  have hpath := Parser.walks_document _ _ (.nil (.start (tokens text)))
  have hsub := hpath.marks_sublist (State.honest_start _) hfaults
  exact (List.sublist_append_left _ _).trans hsub

theorem read_marks_pairwise {text : String} (h : (read text).faults = []) :
    ((read text).definitions.flatMap Definition.marks).Pairwise (·.offset ≤ ·.offset) :=
  ((tokens_marks_pairwise text).sublist (read_marks_sublist h)).imp fun hlt => Nat.le_of_lt hlt

theorem offset_lt_of_mem_read_marks {text : String} (h : (read text).faults = []) {m : Mark}
    (hm : m ∈ (read text).definitions.flatMap Definition.marks) :
    m.offset < byteLength text.toList :=
  offset_lt_of_mem_tokens_marks ((read_marks_sublist h).subset hm)

theorem isName_of_mem_read_marks {text : String} (h : (read text).faults = []) {n : Name}
    (hn : Mark.name n ∈ (read text).definitions.flatMap Definition.marks) :
    isName n.text = true :=
  isName_of_mem_tokens_marks ((read_marks_sublist h).subset hn)

/-! ## Marks of members -/

theorem Definition.name_mem_marks (d : Definition) : .name d.name ∈ d.marks :=
  List.mem_append_left _ (List.mem_append_left _ List.mem_cons_self)

theorem Field.name_mem_marks (f : Field) : .name f.name ∈ f.marks :=
  List.mem_append_left _ (List.mem_append_left _ List.mem_cons_self)

theorem InputValue.name_mem_marks (v : InputValue) : .name v.name ∈ v.marks :=
  List.mem_append_left _ List.mem_cons_self

theorem EnumValue.name_mem_marks (v : EnumValue) : .name v.name ∈ v.marks :=
  List.mem_append_left _ List.mem_cons_self

namespace Definition

variable (d : Definition)

theorem fields_marks_sublist : (d.body.fields.flatMap Field.marks).Sublist d.marks := by
  refine .trans ?_ (List.sublist_append_right _ _)
  cases d.body <;> simp [Body.marks, Body.fields]

theorem inputFields_marks_sublist :
    (d.body.inputFields.flatMap InputValue.marks).Sublist d.marks := by
  refine .trans ?_ (List.sublist_append_right _ _)
  cases d.body <;> simp [Body.marks, Body.inputFields]

theorem enumValues_marks_sublist :
    (d.body.enumValues.flatMap EnumValue.marks).Sublist d.marks := by
  refine .trans ?_ (List.sublist_append_right _ _)
  cases d.body <;> simp [Body.marks, Body.enumValues]

end Definition

end SchemaLint.Sdl
