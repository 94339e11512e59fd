import SchemaLint.Proofs.Sdl.Order

/-!
# Names of any reading

A text with faults is read in part, and the names that come out are still name tokens of
the text. Their offsets are right unless a token was dropped on the way: its bytes are
missing from every offset behind it. So names stand where they say in every reading that
drops nothing, and nothing is dropped without a fault.
-/

namespace SchemaLint.Sdl

open Text

/-! ## Along a path -/

section Paths

variable {s t : State} {ms : List Mark} {m : Mark}

theorem Move.ahead (h : Move s ms t) : t.ahead <:+ s.ahead := by
  cases h with
  | pass => exact List.tail_suffix _
  | keep hs => exact hs ▸ List.suffix_cons _ _
  | drop hs => exact hs ▸ List.suffix_cons _ _
  | note | mute => exact List.suffix_refl _

theorem Move.dropped_le (h : Move s ms t) : s.dropped ≤ t.dropped := by
  cases h with
  | drop => exact Nat.le_add_right _ _
  | pass | keep | note | mute => exact Nat.le_refl _

theorem Move.exists_token (h : Move s ms t) (hm : m ∈ ms) :
    ∃ token ∈ s.ahead, token.mark? s.dropped = some m := by
  cases h with
  | keep hs hmark =>
    rw [List.mem_singleton.mp hm]
    exact ⟨_, hs ▸ List.mem_cons_self, hmark⟩
  | pass | note | mute | drop => cases hm

theorem Path.dropped_le (h : Path s ms t) : s.dropped ≤ t.dropped := by
  induction h with
  | nil => exact Nat.le_refl _
  | cons move _ ih => exact Nat.le_trans move.dropped_le ih

theorem Path.honest (h : Path s ms t) (hs : s.Honest) : t.Honest := by
  induction h with
  | nil => exact hs
  | cons move _ ih => exact ih (move.honest hs)

/-- What a path keeps are tokens that lay ahead, less the bytes dropped so far. -/
theorem Path.exists_token (h : Path s ms t) (hm : m ∈ ms) :
    ∃ token ∈ s.ahead, ∃ dropped ≤ t.dropped, token.mark? dropped = some m := by
  induction h with
  | nil => cases hm
  | cons move path ih =>
    rcases List.mem_append.mp hm with hm | hm
    · obtain ⟨token, htoken, hmark⟩ := move.exists_token hm
      exact ⟨token, htoken, _, Nat.le_trans move.dropped_le path.dropped_le, hmark⟩
    · obtain ⟨token, htoken, hrest⟩ := ih hm
      exact ⟨token, move.ahead.subset htoken, hrest⟩

end Paths

/-! ## In a text -/

theorem exists_lexeme_of_mem_gather {ending : Nat} {trivia : List Trivia} {ls : List Lexeme}
    {token : Token} (h : token ∈ gather ending trivia ls) (hend : token.kind ≠ .endOfText) :
    ∃ l ∈ ls, l.kind = .token token.kind ∧ l.text = token.text ∧ l.offset = token.offset := by
  induction ls generalizing trivia with
  | nil =>
    rw [List.mem_singleton.mp h] at hend
    exact absurd rfl hend
  | cons l ls ih =>
    have hrest : ∀ {trivia}, token ∈ gather ending trivia ls →
        ∃ l' ∈ l :: ls, l'.kind = .token token.kind ∧ l'.text = token.text ∧
          l'.offset = token.offset := by
      intro trivia h
      obtain ⟨l', hl', hsame⟩ := ih h
      exact ⟨l', List.mem_cons_of_mem _ hl', hsame⟩
    rw [gather] at h
    split at h
    · next kind hkind =>
      rcases List.mem_cons.mp h with rfl | h
      · exact ⟨l, List.mem_cons_self, hkind, rfl, rfl⟩
      · exact hrest h
    · exact hrest h
    · exact hrest h

/-- The bytes of the tokens that were dropped while a text was read. -/
def droppedBytes (text : String) : Nat := (Parser.document (.start (tokens text))).2.dropped

theorem droppedBytes_eq_zero_of_readable {text : String} (h : (read text).faults = []) :
    droppedBytes text = 0 := by
  have hpath := Parser.walks_document _ _ (.nil (.start (tokens text)))
  have hfaults := ((read_faults_eq_nil_iff text).mp h).2
  by_contra hne
  exact (hpath.honest (State.honest_start _)).dropped hne hfaults

/-- Every name of a reading is a name token of the text. -/
theorem exists_lexeme_of_mem_read_marks {text : String} {n : Name}
    (h : Mark.name n ∈ (read text).definitions.flatMap Definition.marks) :
    ∃ l ∈ lexemes text, l.kind = .token .name ∧ l.text = n.text ∧
      ∃ dropped ≤ droppedBytes text, n.offset = l.offset - dropped := by
  have hpath := Parser.walks_document _ _ (.nil (.start (tokens text)))
  obtain ⟨token, htoken, dropped, hle, hmark⟩ := hpath.exists_token h
  unfold Token.mark? at hmark
  repeat' split at hmark
  · next hkind =>
    obtain rfl := Mark.name.inj (Option.some.inj hmark)
    obtain ⟨l, hl, hl', htext, hoffset⟩ :=
      exists_lexeme_of_mem_gather htoken (by rw [hkind]; decide)
    exact ⟨l, hl, hkind ▸ hl', htext, dropped, hle, by rw [hoffset]⟩
  · cases hmark
  · cases hmark

/-- Also in a text with faults, names are names of the language. -/
theorem isName_of_mem_reading {text : String} {n : Name}
    (h : Mark.name n ∈ (read text).definitions.flatMap Definition.marks) :
    isName n.text = true := by
  obtain ⟨l, hl, hkind, htext, -⟩ := exists_lexeme_of_mem_read_marks h
  rw [← htext]
  exact isName_of_mem_lexemesFrom hl hkind

/-- The word stands in the text at that offset. -/
def StandsAt (text word : List Char) (offset : Nat) : Prop :=
  ∃ before after, text = before ++ (word ++ after) ∧ byteLength before = offset

/-- Names stand where they say if nothing was dropped. -/
theorem standsAt_of_mem_read_marks {text : String} (hdropped : droppedBytes text = 0) {n : Name}
    (h : Mark.name n ∈ (read text).definitions.flatMap Definition.marks) :
    StandsAt text.toList n.text.toList n.offset := by
  obtain ⟨l, hl, -, htext, dropped, hle, hoffset⟩ := exists_lexeme_of_mem_read_marks h
  obtain ⟨before, after, hsplit, hbefore⟩ := exists_append_of_mem_lexemesFrom hl
  obtain rfl : dropped = 0 := by omega
  refine ⟨before, after, htext ▸ hsplit, ?_⟩
  omega

/-- So do directives, at their at signs. -/
theorem standsAt_of_directive_mem_read_marks {text : String} (hdropped : droppedBytes text = 0)
    {offset : Nat}
    (h : Mark.directive offset ∈ (read text).definitions.flatMap Definition.marks) :
    StandsAt text.toList ['@'] offset := by
  have hpath := Parser.walks_document _ _ (.nil (.start (tokens text)))
  obtain ⟨token, htoken, dropped, hle, hmark⟩ := hpath.exists_token h
  obtain rfl : dropped = 0 := Nat.le_zero.mp (hdropped ▸ hle)
  unfold Token.mark? at hmark
  repeat' split at hmark
  · cases hmark
  · next hkind =>
    obtain rfl := Mark.directive.inj (Option.some.inj hmark)
    obtain ⟨l, hl, hl', -, hoffset⟩ := exists_lexeme_of_mem_gather htoken (by rw [hkind]; decide)
    obtain ⟨before, after, hsplit, hbefore⟩ := exists_append_of_mem_lexemesFrom hl
    rw [text_of_mem_lexemesFrom hl (hkind ▸ hl')] at hsplit
    exact ⟨before, after, hsplit, by omega⟩
  · cases hmark

end SchemaLint.Sdl
