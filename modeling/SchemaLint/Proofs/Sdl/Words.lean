import SchemaLint.Proofs.BlankedLines

/-!
# Texts as words

A text that is put together from words, with white space, commas and comments between
them, has just these words for its tokens. What it takes is that every word ends where it
is meant to end: a name must not run into another name, and a string not into a quote.
Such a text has no lexical faults, and where no word goes over a line no line of it can
be taken for a comment line.
-/

namespace SchemaLint.Sdl

open Text Source

/-- What counts of a token for the productions, its position apart. -/
structure Word where
  kind : TokenKind
  text : String
  /-- No comma stands before it. -/
  isClose : Bool
  deriving DecidableEq, Repr

structure Token.Is (t : Token) (w : Word) : Prop where
  kind : t.kind = w.kind
  text : t.text = w.text
  close : w.isClose = true → t.trivia.any (·.kind == .comma) = false

/-- The word behind the last one. -/
def Word.ending : Word := ⟨.endOfText, "", false⟩

/-- `Written comma cs ws`: the text `cs` is the words `ws` one after the other. The flag
says that a comma stands before the text, with no word in between. -/
inductive Written : (comma : Bool) → List Char → List Word → Prop
  | nil {comma : Bool} : Written comma [] []
  | space {comma : Bool} {c : Char} {cs : List Char} {ws : List Word} (hc : isSpace c = true)
      (rest : Written comma cs ws) : Written comma (c :: cs) ws
  | comma {comma : Bool} {cs : List Char} {ws : List Word} (rest : Written true cs ws) :
      Written comma (',' :: cs) ws
  | comment {comma : Bool} {body cs : List Char} {ws : List Word}
      (hbody : ∀ c ∈ body, isCommentEnd c = false) (hend : ∀ c ∈ cs.head?, isCommentEnd c = true)
      (rest : Written comma cs ws) : Written comma ('#' :: (body ++ cs)) ws
  | word {comma : Bool} {c : Char} {cs rest : List Char} {w : Word} {ws : List Word}
      (htext : w.text.toList = c :: cs) (hscan : scan c (cs ++ rest) = .token cs.length w.kind)
      (hline : '\n' ∉ cs) (hclose : w.isClose = true → comma = false)
      (hrest : Written false rest ws) : Written comma (c :: (cs ++ rest)) (w :: ws)

theorem isSpace_of_scan_token {c : Char} {cs : List Char} {more : Nat} {kind : TokenKind}
    (h : scan c cs = .token more kind) : isSpace c = false := by
  by_contra hc
  rw [scan_space (by simpa using hc)] at h
  cases congrArg Scan.kind h

theorem takeWhile_append_of_head {p : Char → Bool} {u v : List Char} (hu : ∀ c ∈ u, p c = true)
    (hv : ∀ c ∈ v.head?, p c = false) : (u ++ v).takeWhile p = u := by
  have hnil : v.takeWhile p = [] := by
    cases v with
    | nil => rfl
    | cons c v => exact List.takeWhile_cons_of_neg (by simp [hv c rfl])
  rw [List.takeWhile_append_of_pos hu, hnil, List.append_nil]

namespace Written

variable {comma : Bool} {cs : List Char} {ws : List Word}

theorem dropSpace (h : Written comma cs ws) : Written comma (cs.dropWhile isSpace) ws := by
  induction h with
  | nil => exact .nil
  | space hc _ ih =>
    rw [List.dropWhile_cons_of_pos hc]
    exact ih
  | comma rest =>
    rw [List.dropWhile_cons_of_neg (by decide)]
    exact .comma rest
  | comment hbody hend rest =>
    rw [List.dropWhile_cons_of_neg (by decide)]
    exact .comment hbody hend rest
  | word htext hscan hline hclose hrest =>
    rw [List.dropWhile_cons_of_neg (by simp [isSpace_of_scan_token hscan])]
    exact .word htext hscan hline hclose hrest

/-- The tokens of the text are the words, and the end. The induction is on the length of
the text, since white space is one lexeme however long it is. -/
theorem lexes (h : Written comma cs ws) (o ending : Nat) (trivia : List Trivia)
    (htrivia : comma = false → trivia.any (·.kind == .comma) = false) :
    lexicalFaults (lexemesFrom 0 o cs) = [] ∧
      List.Forall₂ Token.Is (gather ending trivia (lexemesFrom 0 o cs)) (ws ++ [.ending]) := by
  induction hn : cs.length using Nat.strongRecOn generalizing comma cs ws o trivia with
  | ind n ih =>
    subst hn
    cases h with
    | nil => exact ⟨rfl, .cons ⟨rfl, rfl, by simp [Word.ending]⟩ .nil⟩
    | @space _ c cs _ hc rest =>
      rw [lexemesFrom_cons, scan_space hc, drop_length_takeWhile]
      have hlength : (cs.dropWhile isSpace).length < (c :: cs).length :=
        Nat.lt_succ_of_le (List.length_dropWhile_le _ _)
      refine ih _ hlength rest.dropSpace _ (trivia ++ [_]) (fun hcomma => ?_) rfl
      simp [htrivia hcomma]
    | @comma _ cs _ rest =>
      rw [lexemesFrom_cons]
      exact ih _ (Nat.lt_succ_self _) rest _ (trivia ++ [_]) (by simp) rfl
    | @comment _ body cs _ hbody hend rest =>
      have hscan : scan '#' (body ++ cs) = ⟨body.length, .trivia .comment⟩ := by
        show Scan.mk _ _ = _
        rw [takeWhile_append_of_head (by simpa using hbody) (by simpa using hend)]
      rw [lexemesFrom_cons, hscan, List.drop_left]
      refine ih _ ?_ rest _ (trivia ++ [_]) (fun hcomma => ?_) rfl
      · simp only [List.length_cons, List.length_append]
        omega
      · simp [htrivia hcomma]
    | @word _ c cs rest w ws htext hscan hline hclose hrest =>
      have hword : w.text = String.ofList (c :: cs) := by rw [← htext, String.ofList_toList]
      rw [lexemesFrom_cons, hscan]
      simp only [Scan.token, List.drop_left, List.take_left]
      obtain ⟨hfaults, htokens⟩ := ih _ (by simp only [List.length_cons, List.length_append]; omega)
        hrest _ [] (by simp) rfl
      exact ⟨hfaults, .cons ⟨rfl, hword.symm, fun hw => htrivia (hclose hw)⟩ htokens⟩

theorem isCommentLine_eq_false (h : Written comma cs ws) : isCommentLine cs = false := by
  have hfaults := (h.lexes 0 0 [] fun _ => rfl).1
  exact isCommentLine_of_plain (plain_of_lexemes (lexicalFaults_eq_nil_iff.mp hfaults))

/-- No line of the text is blanked out. -/
theorem maskBelow_eq (h : Written comma cs ws) : maskBelow cs = cs := by
  induction h with
  | nil => rfl
  | @space _ c cs _ _ rest ih =>
    rw [maskBelow, mask_eq_maskBelow rest.isCommentLine_eq_false, ih, ite_self]
  | comma _ ih => rw [maskBelow, if_neg (by decide), ih]
  | @comment _ body cs _ hbody _ _ ih =>
    have hline : '\n' ∉ '#' :: body := by
      intro hmem
      rcases List.mem_cons.mp hmem with hmem | hmem
      · cases hmem
      · cases hbody _ hmem
    rw [← List.cons_append, maskBelow_append hline, ih]
  | @word _ c cs rest _ _ _ hscan hline _ _ ih =>
    have hfirst : '\n' ∉ c :: cs := by
      intro hmem
      rcases List.mem_cons.mp hmem with rfl | hmem
      · cases isSpace_of_scan_token hscan
      · exact hline hmem
    rw [← List.cons_append, maskBelow_append hfirst, ih]

theorem maskCommentLines_eq {text : String} (h : Written comma text.toList ws) :
    maskCommentLines text = text := by
  refine String.toList_inj.mp ?_
  rw [toList_maskCommentLines, mask_eq_maskBelow h.isCommentLine_eq_false, h.maskBelow_eq]

end Written

/-! ## Words of each kind -/

/-- What may stand behind a name or a string. -/
def Open (cs : List Char) : Prop := ∀ c ∈ cs.head?, isNameContinue c = false ∧ c ≠ '"'

theorem open_nil : Open [] := by simp [Open]

theorem open_cons {c : Char} (h : isNameContinue c = false ∧ c ≠ '"') (cs : List Char) :
    Open (c :: cs) := by
  rintro _ ⟨rfl⟩
  exact h

/-- A text that has no need of escapes in a string. -/
def IsPlain (text : String) : Prop :=
  ∀ c ∈ text.toList, c ≠ '"' ∧ c ≠ '\\' ∧ c ≠ '\n' ∧ c ≠ '\r'

instance : DecidablePred IsPlain := fun _ => List.decidableBAll _ _

def Word.ofName (name : String) : Word := ⟨.name, name, false⟩

def Word.mark (kind : TokenKind) (c : Char) : Word := ⟨kind, String.singleton c, false⟩

/-- A text in three quotes. -/
def blockQuoted (text : String) : String := "\"\"\"" ++ text ++ "\"\"\""

def quoted (text : String) : String := "\"" ++ text ++ "\""

def Word.string (text : String) : Word := ⟨.string, text, false⟩

@[simp] theorem Word.ofName_kind (name : String) : (Word.ofName name).kind = .name := rfl

@[simp] theorem Word.mark_kind (kind : TokenKind) (c : Char) : (Word.mark kind c).kind = kind := rfl

@[simp] theorem Word.string_kind (text : String) : (Word.string text).kind = .string := rfl

theorem scan_of_isNameStart {c : Char} (hc : isNameStart c = true) (cs : List Char) :
    scan c cs = .token (cs.takeWhile isNameContinue).length .name := by
  have hpunctuator : punctuator? c = none := by
    cases h : punctuator? c with
    | none => rfl
    | some kind =>
      unfold punctuator? at h
      split at h
      all_goals first | cases hc | cases h
  rw [scan, hpunctuator]
  exact if_pos hc

theorem scanBlockString_of_plain {text : List Char} (h : ∀ c ∈ text, c ≠ '"' ∧ c ≠ '\\')
    (more : Nat) (rest : List Char) :
    scanBlockString more (text ++ '"' :: '"' :: '"' :: rest) =
      .token (more + text.length + 3) .string := by
  induction text generalizing more with
  | nil => rfl
  | cons c text ih =>
    obtain ⟨⟨hquote, hslash⟩, htext⟩ := List.forall_mem_cons.mp h
    have hstep : scanBlockString more (c :: (text ++ '"' :: '"' :: '"' :: rest)) =
        scanBlockString (more + 1) (text ++ '"' :: '"' :: '"' :: rest) := by
      rw [scanBlockString] <;> simp [hquote, hslash]
    rw [List.cons_append, hstep, ih htext, List.length_cons]
    congr 1
    omega

theorem scanString_of_plain {text : List Char}
    (h : ∀ c ∈ text, c ≠ '"' ∧ c ≠ '\\' ∧ c ≠ '\n' ∧ c ≠ '\r') (more : Nat) (rest : List Char) :
    scanString .body none more (text ++ '"' :: rest) = .token (more + text.length + 1) .string := by
  induction text generalizing more with
  | nil => rfl
  | cons c text ih =>
    obtain ⟨⟨hquote, hslash, hfeed, hreturn⟩, htext⟩ := List.forall_mem_cons.mp h
    have hbody : stepString .body none c = (.body, none) := by
      simp [stepString, stepBody, hslash, hfeed, hreturn]
    rw [List.cons_append, scanString, if_neg (by simpa using hquote), hbody]
    simp only [ih htext, List.length_cons]
    congr 1
    omega

theorem scanQuote_of_plain {text : List Char}
    (h : ∀ c ∈ text, c ≠ '"' ∧ c ≠ '\\' ∧ c ≠ '\n' ∧ c ≠ '\r') {rest : List Char}
    (hrest : Open rest) :
    scanQuote (text ++ '"' :: rest) = .token (text.length + 1) .string := by
  cases text with
  | nil =>
    cases rest with
    | nil => rfl
    | cons c rest =>
      have hc := (hrest c rfl).2
      rw [List.nil_append, scanQuote]
      · rfl
      · rintro _ ⟨⟩
        exact hc rfl
  | cons c text =>
    obtain ⟨⟨hquote, hslash, -⟩, htext⟩ := List.forall_mem_cons.mp h
    rw [List.cons_append, scanQuote] <;> try simp [hquote, hslash]
    rw [scanString_of_plain htext]
    congr 1
    omega

namespace Written

variable {comma : Bool} {rest : List Char} {ws : List Word}

theorem of_isName {name : String} {isClose : Bool} (h : isName name = true) (hrest : Open rest)
    (hclose : isClose = true → comma = false) (hws : Written false rest ws) :
    Written comma (name.toList ++ rest) (⟨.name, name, isClose⟩ :: ws) := by
  rw [isName] at h
  cases hname : name.toList with
  | nil => simp [hname] at h
  | cons c cs =>
    simp only [hname, Bool.and_eq_true, List.all_eq_true] at h
    refine .word hname ?_ (fun hmem => ?_) hclose hws
    · rw [scan_of_isNameStart h.1, takeWhile_append_of_head h.2 fun c hc => (hrest c hc).1]
    · cases h.2 _ hmem

theorem name {name : String} (h : isName name = true) (hrest : Open rest)
    (hws : Written false rest ws) : Written comma (name.toList ++ rest) (.ofName name :: ws) :=
  of_isName h hrest (by simp) hws

theorem mark {c : Char} {kind : TokenKind} (h : punctuator? c = some kind)
    (hws : Written false rest ws) : Written comma (c :: rest) (.mark kind c :: ws) := by
  refine @word comma c [] rest (.mark kind c) ws (by simp [Word.mark]) ?_ (by simp)
    (by simp [Word.mark]) hws
  rw [List.nil_append, scan, h]
  rfl

theorem blockString {text : String} (h : IsPlain text) (hws : Written false rest ws) :
    Written comma ((blockQuoted text).toList ++ rest) (.string (blockQuoted text) :: ws) := by
  have htext : (blockQuoted text).toList =
      '"' :: ('"' :: '"' :: (text.toList ++ ['"', '"', '"'])) := by simp [blockQuoted]
  rw [htext, List.cons_append]
  refine .word htext ?_ ?_ (by simp [Word.string]) hws
  · have hscan := scanBlockString_of_plain (fun c hc => ⟨(h c hc).1, (h c hc).2.1⟩) 2 rest
    show scanBlockString 2 (text.toList ++ ['"', '"', '"'] ++ rest) = _
    rw [List.append_assoc]
    refine hscan.trans ?_
    simp only [List.length_cons, List.length_append, List.length_nil, Word.string]
    congr 1
    omega
  · simp only [List.mem_cons, List.mem_append, Char.reduceEq, false_or, List.not_mem_nil, or_false]
    exact fun hmem => (h _ hmem).2.2.1 rfl

theorem quotedString {text : String} (h : IsPlain text) (hrest : Open rest)
    (hws : Written false rest ws) :
    Written comma ((quoted text).toList ++ rest) (.string (quoted text) :: ws) := by
  have htext : (quoted text).toList = '"' :: (text.toList ++ ['"']) := by simp [quoted]
  rw [htext, List.cons_append]
  refine .word htext ?_ ?_ (by simp [Word.string]) hws
  · show scanQuote _ = _
    rw [List.append_assoc, List.singleton_append, scanQuote_of_plain h hrest]
    simp [Word.string]
  · simp only [List.mem_append, List.mem_singleton, Char.reduceEq, or_false]
    exact fun hmem => (h _ hmem).2.2.1 rfl

end Written

/-! ## Values of strings -/

theorem blockLines_of_line {cs : List Char} (h : ∀ c ∈ cs, c ≠ '\n' ∧ c ≠ '\r') :
    blockLines cs = [cs] := by
  induction cs with
  | nil => rfl
  | cons c cs ih =>
    obtain ⟨⟨hfeed, hreturn⟩, hcs⟩ := List.forall_mem_cons.mp h
    rw [blockLines]
    · simp [hfeed, hreturn, ih hcs]
    · simp [hreturn]

theorem unescapeQuotes_eq_self {cs : List Char} (h : '\\' ∉ cs) : unescapeQuotes cs = cs := by
  induction cs with
  | nil => rfl
  | cons c cs ih =>
    rw [List.mem_cons, not_or] at h
    rw [unescapeQuotes, ih h.2]
    simp [Ne.symm h.1]

theorem unescape_eq_self {cs : List Char} (h : '\\' ∉ cs) : unescape cs = cs := by
  rw [unescape]
  induction cs with
  | nil => rfl
  | cons c cs ih =>
    rw [List.mem_cons, not_or] at h
    have hc : ¬ (c == '\\') = true := by simpa using Ne.symm h.1
    simp only [unescapeFrom, if_neg hc, ih h.2]

theorem stringValue_blockQuoted {text : String} (h : IsPlain text)
    (hink : ∃ c ∈ text.toList, isIndent c = false) : stringValue (blockQuoted text) = text := by
  have htext : (blockQuoted text).toList =
      '"' :: '"' :: '"' :: (text.toList ++ ['"', '"', '"']) := by simp [blockQuoted]
  have hline := blockLines_of_line fun c hc => (h c hc).2.2
  have hall : text.toList.all isIndent = false := by simpa using hink
  rw [stringValue, htext]
  simp only [List.length_append, List.length_cons, List.length_nil, Nat.add_sub_cancel,
    List.take_left]
  rw [blockValue, unescapeQuotes_eq_self fun hc => (h _ hc).2.1 rfl, hline]
  simp [dropBlankEnds, hall]

theorem stringValue_quoted {text : String} (h : IsPlain text) :
    stringValue (quoted text) = text := by
  have htext : (quoted text).toList = '"' :: (text.toList ++ ['"']) := by simp [quoted]
  rw [stringValue, htext]
  split
  · next cs heq =>
    -- The quote that closes it is the only one.
    have hcs : text.toList ++ ['"'] = '"' :: '"' :: cs := (List.cons.inj heq).2
    cases hchars : text.toList with
    | nil => simp [hchars] at hcs
    | cons c rest =>
      rw [hchars] at hcs
      exact absurd (List.cons.inj hcs).1 (h c (by simp [hchars])).1
  · next cs _ heq =>
    obtain rfl := (List.cons.inj heq).2
    rw [List.dropLast_concat, unescape_eq_self fun hc => (h _ hc).2.1 rfl, String.ofList_toList]
  · next hnot => exact absurd rfl (hnot _)

end SchemaLint.Sdl
