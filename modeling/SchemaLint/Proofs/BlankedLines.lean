import Mathlib.Data.List.TakeWhile
import SchemaLint.Proofs.CleanSchema
import SchemaLint.Proofs.Sdl.StringEnd

/-!
# Comment lines in a valid text

Comment lines are told by their first characters, before a text is cut into lexemes. In a
text that can be read as it stands, two slashes can stand first on a line only inside of
a string. Blanking the line out then changes the string and nothing else, as long as the
string does not end on that line.
-/

namespace SchemaLint.Source

open Text Sdl

/-! ## Texts from the middle of a line -/

theorem isCommentLine_append_of {l : List Char} (h : isCommentLine l = true) (v : List Char) :
    isCommentLine (l ++ v) = true := by
  rw [isCommentLine, List.isPrefixOf_iff_prefix, trimStart] at h ⊢
  have hne : (l.dropWhile isBlank).isEmpty = false := by
    obtain ⟨r, hr⟩ := h
    rw [← hr]
    rfl
  rw [List.dropWhile_append, hne]
  exact h.trans (List.prefix_append _ v)

/-- A text that begins in the middle of a line, with the comment lines below that line
blanked out. -/
def maskBelow : List Char → List Char
  | [] => []
  | c :: cs => if c = '\n' then c :: mask cs else c :: maskBelow cs

theorem maskBelow_append {u : List Char} (hu : '\n' ∉ u) (v : List Char) :
    maskBelow (u ++ v) = u ++ maskBelow v := by
  induction u with
  | nil => rfl
  | cons c u ih =>
    rw [List.mem_cons, not_or] at hu
    rw [List.cons_append, maskBelow, if_neg (Ne.symm hu.1), ih hu.2, List.cons_append]

theorem maskBelow_lineFeed (cs : List Char) : maskBelow ('\n' :: cs) = '\n' :: mask cs := rfl

theorem maskBelow_of_not_mem {l : List Char} (hl : '\n' ∉ l) : maskBelow l = l := by
  have h := maskBelow_append hl []
  rwa [List.append_nil, maskBelow, List.append_nil] at h

theorem head?_maskBelow (cs : List Char) : (maskBelow cs).head? = cs.head? := by
  cases cs with
  | nil => rfl
  | cons c cs =>
    rw [maskBelow]
    split <;> rfl

/-- A line that is no comment is kept. -/
theorem mask_eq_maskBelow {cs : List Char} (h : isCommentLine cs = false) :
    mask cs = maskBelow cs := by
  induction cs using line_induction with
  | nil => rfl
  | last l hl hne => rw [mask_last hl hne, h, maskBelow_of_not_mem hl, if_neg Bool.false_ne_true]
  | line l cs hl _ =>
    have hline : isCommentLine l = false :=
      Bool.eq_false_iff.mpr fun hc => by rw [isCommentLine_append_of hc] at h; cases h
    rw [mask_line hl, hline, maskBelow_append hl, maskBelow_lineFeed, if_neg Bool.false_ne_true,
      ← List.append_cons]

theorem mask_cons_quote (cs : List Char) : mask ('"' :: cs) = '"' :: maskBelow cs := by
  rw [mask_eq_maskBelow (show isCommentLine ('"' :: cs) = false from rfl)]
  rfl

theorem byteLength_maskBelow (cs : List Char) : byteLength (maskBelow cs) = byteLength cs := by
  induction cs with
  | nil => rfl
  | cons c cs ih =>
    rw [maskBelow]
    split
    · rw [byteLength_cons, byteLength_cons, byteLength_mask]
    · rw [byteLength_cons, byteLength_cons, ih]

/-- A class that holds no line feed ends in the same place. -/
theorem takeWhile_maskBelow {p : Char → Bool} (hp : p '\n' = false) (cs : List Char) :
    (maskBelow cs).takeWhile p = cs.takeWhile p ∧
      (maskBelow cs).dropWhile p = maskBelow (cs.dropWhile p) := by
  induction cs with
  | nil => exact ⟨rfl, rfl⟩
  | cons c cs ih =>
    by_cases hc : c = '\n'
    · subst hc
      rw [maskBelow_lineFeed, List.takeWhile_cons_of_neg (by simp [hp]),
        List.takeWhile_cons_of_neg (by simp [hp]), List.dropWhile_cons_of_neg (by simp [hp]),
        List.dropWhile_cons_of_neg (by simp [hp])]
      exact ⟨rfl, rfl⟩
    · rw [maskBelow, if_neg hc, List.takeWhile_cons, List.takeWhile_cons, List.dropWhile_cons,
        List.dropWhile_cons, ih.1, ih.2]
      split
      · exact ⟨rfl, rfl⟩
      · rw [maskBelow, if_neg hc]
        exact ⟨rfl, rfl⟩

/-! ## White space -/

/-- What can begin a lexeme, white space apart, is a printed character. -/
theorem printed_of_scan {c : Char} {cs : List Char} (hc : isSpace c = false)
    (hs : ¬ (scan c cs).IsFault) : '!' ≤ c ∧ c ≤ '~' := by
  unfold scan at hs
  split at hs
  · next kind hkind =>
    unfold punctuator? at hkind
    split at hkind
    all_goals first | decide | cases hkind
  · rw [hc] at hs
    have hrange : ∀ a b, '!' ≤ a → b ≤ '~' → a ≤ c ∧ c ≤ b → '!' ≤ c ∧ c ≤ '~' :=
      fun a b ha hb h => ⟨Char.le_trans ha h.1, Char.le_trans h.2 hb⟩
    have hone : ∀ d, '!' ≤ d ∧ d ≤ '~' → (c == d) = true → '!' ≤ c ∧ c ≤ '~' :=
      fun d hd h => beq_iff_eq.mp h ▸ hd
    repeat' split at hs
    · next hname =>
      simp only [isNameStart, Bool.or_eq_true, Bool.and_eq_true, decide_eq_true_eq] at hname
      obtain (hname | hname) | hname := hname
      · exact hrange 'a' 'z' (by decide) (by decide) hname
      · exact hrange 'A' 'Z' (by decide) (by decide) hname
      · exact hone '_' (by decide) hname
    · next hspace => cases hspace
    · next h => exact hone ',' (by decide) h
    · next h => exact hone '#' (by decide) h
    · next h => exact hone '"' (by decide) h
    · next h => exact hone '.' (by decide) h
    · next h => exact hone '-' (by decide) h
    · next h => exact hone '0' (by decide) h
    · next hdigit =>
      simp only [isDigit, Bool.and_eq_true, decide_eq_true_eq] at hdigit
      exact hrange '0' '9' (by decide) (by decide) hdigit
    · exact absurd (isFault_fault _ _) hs

theorem isBlank_of_printed {c : Char} (h : '!' ≤ c ∧ c ≤ '~') : isBlank c = false := by
  have hlow : 0x21 ≤ c.toNat := h.1
  have hhigh : c.toNat ≤ 0x7E := h.2
  simp only [isBlank, Bool.or_eq_false_iff, Bool.and_eq_false_iff, decide_eq_false_iff_not,
    beq_eq_false_iff_ne]
  omega

/-- Nothing, or a character in front that begins no comment line. -/
def Plain (cs : List Char) : Prop := ∀ c ∈ cs.head?, isBlank c = false ∧ c ≠ '/'

theorem plain_of_scan {c : Char} {cs : List Char} (hc : isSpace c = false)
    (hs : ¬ (scan c cs).IsFault) : Plain (c :: cs) := by
  rintro _ ⟨rfl⟩
  refine ⟨isBlank_of_printed (printed_of_scan hc hs), ?_⟩
  rintro rfl
  exact hs (isFault_fault _ _)

theorem Plain.isCommentLine_eq_false {cs : List Char} (h : Plain cs) :
    isCommentLine cs = false := by
  cases cs with
  | nil => rfl
  | cons c cs =>
    obtain ⟨hblank, hslash⟩ := h c rfl
    rw [isCommentLine, trimStart, List.dropWhile_cons_of_neg (by simp [hblank])]
    simp [List.isPrefixOf, hslash.symm]

section Space

variable {w rest : List Char} (hrest : Plain rest) (hw : ∀ c ∈ w, isSpace c = true)
include hrest hw

theorem isCommentLine_space : isCommentLine (w ++ rest) = false := by
  induction w with
  | nil => exact hrest.isCommentLine_eq_false
  | cons c w ih =>
    obtain ⟨hc, hw⟩ := List.forall_mem_cons.mp hw
    by_cases hblank : isBlank c = true
    · rw [isCommentLine, trimStart, List.cons_append, List.dropWhile_cons_of_pos hblank]
      exact ih hw
    · -- A byte order mark, which is white space but no blank.
      have hplain : Plain (c :: (w ++ rest)) := by
        rintro _ ⟨rfl⟩
        refine ⟨by simpa using hblank, ?_⟩
        rintro rfl
        cases hc
      exact hplain.isCommentLine_eq_false

/-- White space that no comment stands behind is kept. -/
theorem maskBelow_space : maskBelow (w ++ rest) = w ++ maskBelow rest := by
  induction w with
  | nil => rfl
  | cons c w ih =>
    have hw' := (List.forall_mem_cons.mp hw).2
    rw [List.cons_append, maskBelow, mask_eq_maskBelow (isCommentLine_space hrest hw'), ih hw',
      ite_self, List.cons_append]

end Space

theorem isCommentLine_of_plain {cs : List Char} (h : Plain (cs.dropWhile isSpace)) :
    isCommentLine cs = false := by
  have hw : ∀ c ∈ cs.takeWhile isSpace, isSpace c = true := fun c hc => List.mem_takeWhile_imp hc
  have hcomment := isCommentLine_space h hw
  rwa [List.takeWhile_append_dropWhile] at hcomment

theorem takeWhile_isSpace_maskBelow {cs : List Char} (h : Plain (cs.dropWhile isSpace)) :
    (maskBelow cs).takeWhile isSpace = cs.takeWhile isSpace ∧
      (maskBelow cs).dropWhile isSpace = maskBelow (cs.dropWhile isSpace) := by
  have hw : ∀ c ∈ cs.takeWhile isSpace, isSpace c = true := fun c hc => List.mem_takeWhile_imp hc
  have hmask := maskBelow_space h hw
  rw [List.takeWhile_append_dropWhile] at hmask
  have hrest : (maskBelow (cs.dropWhile isSpace)).takeWhile isSpace = [] ∧
      (maskBelow (cs.dropWhile isSpace)).dropWhile isSpace = maskBelow (cs.dropWhile isSpace) := by
    have hhead := List.head?_dropWhile_not isSpace cs
    rw [← head?_maskBelow] at hhead
    cases hcs : maskBelow (cs.dropWhile isSpace) with
    | nil => exact ⟨rfl, rfl⟩
    | cons c rest =>
      have hc : ¬ isSpace c = true := by simpa [hcs] using hhead
      exact ⟨List.takeWhile_cons_of_neg hc, List.dropWhile_cons_of_neg hc⟩
  rw [hmask, List.takeWhile_append_of_pos hw, List.dropWhile_append_of_pos hw, hrest.1, hrest.2,
    List.append_nil]
  exact ⟨rfl, rfl⟩

/-! ## Strings -/

/-- The last line of a text is a comment line. -/
def endsInComment (cs : List Char) : Bool := (pieces cs).getLast?.any isCommentLine

theorem endsInComment_line {l cs : List Char} (hl : '\n' ∉ l) (hne : cs ≠ []) :
    endsInComment (l ++ '\n' :: cs) = endsInComment cs := by
  have hpieces : pieces cs ≠ [] := by
    intro h
    have := flatten_pieces cs
    rw [h] at this
    exact hne this.symm
  rw [endsInComment, pieces_line hl, List.getLast?_cons_of_ne_nil hpieces, endsInComment]

theorem endsInComment_last {l : List Char} (hl : '\n' ∉ l) (hne : l ≠ []) :
    endsInComment l = isCommentLine l := by
  rw [endsInComment, pieces_last hl hne]
  rfl

/-- A quote decides whether its line is a comment. -/
theorem isCommentLine_quote (q r : List Char) :
    isCommentLine (q ++ '"' :: r) = isCommentLine (q ++ ['"']) := by
  have hquote : ∀ r, ('"' :: r).dropWhile isBlank = '"' :: r := fun _ => rfl
  rw [isCommentLine, isCommentLine, trimStart, trimStart, List.dropWhile_append,
    List.dropWhile_append, hquote, hquote]
  split
  · rfl
  · rcases q.dropWhile isBlank with _ | ⟨c, _ | ⟨d, q⟩⟩ <;> rfl

/-- A text that ends in a quote, on a line that is no comment, is blanked out by itself. -/
theorem mask_quote {cs : List Char} (h : endsInComment (cs ++ ['"']) = false) (rest : List Char) :
    mask (cs ++ '"' :: rest) = mask (cs ++ ['"']) ++ maskBelow rest := by
  have hline : ∀ l, '\n' ∉ l → isCommentLine (l ++ ['"']) = false →
      mask (l ++ '"' :: rest) = mask (l ++ ['"']) ++ maskBelow rest := by
    intro l hl hcomment
    have hcomment' := (isCommentLine_quote l rest).trans hcomment
    have hquote : '\n' ∉ l ++ ['"'] := by simp [hl]
    rw [mask_eq_maskBelow hcomment', mask_eq_maskBelow hcomment, List.append_cons,
      maskBelow_append hquote, maskBelow_of_not_mem hquote]
  induction cs using line_induction with
  | nil => exact hline [] (by simp) rfl
  | last l hl hne =>
    rw [endsInComment_last (by simp [hl]) (by simp)] at h
    exact hline l hl h
  | line l cs hl ih =>
    rw [List.append_assoc, List.cons_append, endsInComment_line hl (by simp)] at h
    rw [List.append_assoc, List.append_assoc, List.cons_append, List.cons_append, mask_line hl,
      mask_line hl, ih h, List.append_assoc]

theorem maskBelow_quote {text inside : List Char} (htext : text = inside ++ ['"'])
    (h : endsInComment ('"' :: text) = false) (rest : List Char) :
    maskBelow (text ++ rest) = maskBelow text ++ maskBelow rest := by
  subst htext
  have hall := @mask_quote ('"' :: inside) h rest
  rw [List.cons_append, List.cons_append, mask_cons_quote, mask_cons_quote] at hall
  rw [List.append_assoc]
  exact (List.cons.inj hall).2

/-- A block string stays closed at its end when lines of it are blanked out, the last one
apart. -/
theorem closesBlock_mask {body : List Char} (h : ClosesBlock body)
    (hlast : endsInComment body = false) : ClosesBlock (mask body) := by
  induction body using line_induction with
  | nil => exact h
  | last l hl hne =>
    rw [endsInComment_last hl hne] at hlast
    rwa [mask_last hl hne, hlast]
  | line l cs hl ih =>
    obtain ⟨hcs, hpasses⟩ := h.of_line
    obtain ⟨inside, hinside⟩ := hcs.eq_append
    rw [endsInComment_line hl (by simp [hinside])] at hlast
    rw [mask_line hl]
    split
    · exact closesBlock_fill (fun c hc => isFill_of_mem_blankOut hc) (ih hcs hlast)
    · rw [List.append_assoc]
      exact closesBlock_line hpasses (ih hcs hlast)

theorem closesBlock_maskBelow {q body : List Char} (hq : '\n' ∉ q) (h : ClosesBlock body)
    (hlast : endsInComment (q ++ body) = false) : ClosesBlock (maskBelow body) := by
  by_cases hfeed : '\n' ∈ body
  · obtain ⟨l, cs, rfl, hl⟩ := List.eq_append_cons_of_mem hfeed
    obtain ⟨hcs, hpasses⟩ := h.of_line
    obtain ⟨inside, hinside⟩ := hcs.eq_append
    have hql : '\n' ∉ q ++ l := by simp [hq, hl]
    rw [← List.append_assoc, endsInComment_line hql (by simp [hinside])] at hlast
    rw [maskBelow_append hl, maskBelow_lineFeed]
    exact closesBlock_line hpasses (closesBlock_mask hcs hlast)
  · rwa [maskBelow_of_not_mem hfeed]

/-- A quoted string has no line that can be blanked out but its last. -/
theorem maskBelow_quoted {inside : List Char} (hline : '\n' ∉ inside.tail)
    (hlast : endsInComment ('"' :: (inside ++ ['"'])) = false) :
    maskBelow (inside ++ ['"']) = inside ++ ['"'] := by
  cases inside with
  | nil => rfl
  | cons c inside =>
    have hfeed : '\n' ∉ inside ++ ['"'] := by simpa using hline
    by_cases hc : c = '\n'
    · subst hc
      have hopening : endsInComment ('"' :: '\n' :: (inside ++ ['"'])) =
          endsInComment (inside ++ ['"']) :=
        @endsInComment_line ['"'] (inside ++ ['"']) (by decide) (by simp)
      rw [List.cons_append, hopening, endsInComment_last hfeed (by simp)] at hlast
      rw [List.cons_append, maskBelow_lineFeed, mask_eq_maskBelow hlast, maskBelow_of_not_mem hfeed]
    · refine maskBelow_of_not_mem ?_
      rw [List.cons_append, List.mem_cons, not_or]
      exact ⟨Ne.symm hc, hfeed⟩

/-- A sound string is found in the blanked text as well, with its own lines blanked out,
unless it ends on a comment line. -/
theorem scanQuote_maskBelow {cs : List Char} (hs : ¬ (scanQuote cs).IsFault) :
    ∃ text rest, cs = text ++ rest ∧ scanQuote cs = .token text.length .string ∧
      (endsInComment ('"' :: text) = false →
        maskBelow cs = maskBelow text ++ maskBelow rest ∧
          scanQuote (maskBelow cs) = .token (maskBelow text).length .string) := by
  obtain ⟨body, rest, rfl, hcloses⟩ | ⟨inside, rest, rfl, hline, hclosed⟩ := scanQuote_closed hs
  · have hscan : ∀ body rest, ClosesBlock body → scanQuote ('"' :: '"' :: (body ++ rest)) =
        .token ('"' :: '"' :: body).length .string := by
      intro body rest h
      rw [scanQuote, h, List.length_cons, List.length_cons, Nat.add_comm 2]
    refine ⟨'"' :: '"' :: body, rest, rfl, hscan body rest hcloses, fun hlast => ?_⟩
    obtain ⟨inside, hinside⟩ := hcloses.eq_append
    have htext : '"' :: '"' :: body = '"' :: '"' :: inside ++ ['"', '"'] ++ ['"'] := by
      simp [hinside]
    have hmask := maskBelow_quote htext hlast rest
    refine ⟨hmask, ?_⟩
    rw [List.cons_append, List.cons_append] at hmask
    rw [hmask]
    exact hscan _ _ (@closesBlock_maskBelow ['"', '"', '"'] body (by decide) hcloses hlast)
  · refine ⟨inside ++ ['"'], rest, by simp, ?_, fun hlast => ?_⟩
    · rw [hclosed rest rfl, List.length_append, List.length_singleton]
    · have hmask := maskBelow_quote rfl hlast rest
      rw [← List.append_cons] at hmask
      refine ⟨hmask, ?_⟩
      rw [hmask, maskBelow_quoted hline hlast, ← List.append_cons,
        hclosed _ (head?_maskBelow rest), List.length_append, List.length_singleton]

/-! ## The text with its comment lines blanked out -/

/-- How a text is read once its comment lines are blanked out: in every string the comment
lines are blanked out, and nothing moves. -/
def blankedLikeness (source : String) : Likeness where
  value v w := ∃ l ∈ lexemes source, l.kind = .token .string ∧ v = stringValue l.text ∧
    w = stringValue (maskCommentLines l.text)
  offset := Eq

/-- A lexeme is sound and, if it is a string, does not end on a comment line. -/
def EndsClear (l : Lexeme) : Prop :=
  (∀ f, l.kind ≠ .fault f) ∧ (l.kind = .token .string → endsInComment l.text.toList = false)

theorem plain_of_lexemes {o : Nat} {cs : List Char}
    (h : ∀ l ∈ lexemesFrom 0 o cs, ∀ f, l.kind ≠ .fault f) : Plain (cs.dropWhile isSpace) := by
  obtain ⟨spaces, -, hspaces⟩ := lexemesFrom_space o cs
  have hhead := List.head?_dropWhile_not isSpace cs
  rw [hspaces] at h
  generalize cs.dropWhile isSpace = rest at *
  cases rest with
  | nil => simp [Plain]
  | cons c rest =>
    rw [lexemesFrom_cons] at h
    have hsound := h _ (List.mem_append_right _ List.mem_cons_self)
    exact plain_of_scan (by simpa using hhead) (not_exists.mpr hsound)

theorem exists_word (cs : List Char) : ∃ u rest, cs = u ++ rest ∧ Gap rest ∧ '\n' ∉ u := by
  refine ⟨cs.takeWhile (!isSpace ·), cs.dropWhile (!isSpace ·),
    List.takeWhile_append_dropWhile.symm, fun c hc => ?_, fun hfeed => ?_⟩
  · have hhead := List.head?_dropWhile_not (!isSpace ·) cs
    rw [Option.mem_def.mp hc] at hhead
    simpa using hhead
  · exact absurd (List.mem_takeWhile_imp hfeed) (by decide)

theorem firstLexeme_string {o : Nat} {text rest : List Char}
    (h : scanQuote (text ++ rest) = .token text.length .string) :
    firstLexeme o '"' (text ++ rest) = ⟨.token .string, String.ofList ('"' :: text), o⟩ := by
  have hscan : scan '"' (text ++ rest) = .token text.length .string := h
  rw [firstLexeme, hscan, Scan.token, List.take_left]

/-- A sound text is gone through in step with what is left of it when the comment lines
below its first line are blanked out. Only strings can hold such lines. -/
theorem lockstep_maskBelow (source : String) :
    Lockstep (blankedLikeness source) (fun l => EndsClear l ∧ l ∈ lexemes source) (fun _ => True)
      (fun o o' cs t => o = o' ∧ t = maskBelow cs) fun o o' cs t => o = o' ∧ t = maskBelow cs where
  faultless := .inl fun _ h => h.1.1
  nil := fun h => h.2
  space := by
    rintro o _ cs _ ⟨rfl, rfl⟩ hP
    obtain ⟨htake, hdrop⟩ :=
      takeWhile_isSpace_maskBelow (plain_of_lexemes fun l hl => (hP l hl).1.1)
    rw [htake]
    exact ⟨rfl, hdrop⟩
  first := by
    rintro o _ c cs _ hc ⟨rfl, rfl⟩
    have hne : c ≠ '\n' := by
      rintro rfl
      cases hc
    exact ⟨maskBelow cs, by rw [maskBelow, if_neg hne], rfl, rfl, rfl⟩
  behind := id
  comment := by
    rintro o _ cs _ ⟨rfl, rfl⟩
    obtain ⟨htake, hdrop⟩ := @takeWhile_maskBelow (!isCommentEnd ·) rfl cs
    rw [htake]
    exact ⟨rfl, hdrop⟩
  word := by
    rintro o _ cs _ ⟨rfl, rfl⟩
    obtain ⟨u, rest, rfl, hrest, hu⟩ := exists_word cs
    have hmask := maskBelow_append hu rest
    refine ⟨u, rest, maskBelow rest, rfl, hmask, hrest, ?_, fun k hk => ⟨?_, ?_⟩⟩
    · rwa [Gap, head?_maskBelow]
    · rw [hmask, List.take_append_of_le_length hk, List.take_append_of_le_length hk]
    · rw [hmask, List.drop_append_of_le_length hk, List.drop_append_of_le_length hk,
        maskBelow_append fun h => hu (List.mem_of_mem_drop h)]
  string := by
    rintro o _ cs _ rfl ⟨-, rfl⟩ ⟨⟨hsound, hclear⟩, hmem⟩ -
    obtain ⟨text, rest, rfl, hscan, hmasked⟩ :=
      scanQuote_maskBelow (not_exists.mpr hsound)
    rw [firstLexeme_string hscan] at hclear hmem
    rw [String.toList_ofList] at hclear
    obtain ⟨hmask, hscan'⟩ := hmasked (hclear rfl)
    refine ⟨text.length, (maskBelow text).length, hscan, hscan', ⟨?_, ?_⟩, _, hmem, rfl, ?_, ?_⟩
    · rw [hmask, List.take_left, List.take_left, byteLength_maskBelow]
    · rw [hmask, List.drop_left, List.drop_left]
    · rw [List.take_left]
    · rw [hmask, List.take_left, ← mask_cons_quote, maskCommentLines, String.toList_ofList, mask]

/-- A text that can be read as it stands can still be read when its comment lines are
blanked out, and to definitions that differ in strings only. -/
theorem read_blanked {source : String} (hf : (read source).faults = [])
    (hclear : ∀ l ∈ lexemes source, l.kind = .token .string →
      endsInComment l.text.toList = false) :
    (read (maskCommentLines source)).faults = [] ∧
      List.Forall₂ (blankedLikeness source).Definitions (read source).definitions
        (read (maskCommentLines source)).definitions := by
  have hlexical := lexicalFaults_eq_nil_iff.mp ((read_faults_eq_nil_iff source).mp hf).1
  have hmask : (maskCommentLines source).toList = maskBelow source.toList := by
    have hfirst := isCommentLine_of_plain (plain_of_lexemes hlexical)
    rw [toList_maskCommentLines, mask_eq_maskBelow hfirst]
  have halike : Alike (blankedLikeness source) (lexemes source)
      (lexemes (maskCommentLines source)) :=
    (lockstep_maskBelow source).alike ⟨rfl, hmask⟩
      (fun l hl => ⟨⟨hlexical l hl, hclear l hl⟩, hl⟩) fun _ _ => trivial
  exact read_of_alike halike (utf8ByteSize_maskCommentLines source).symm hf

end SchemaLint.Source

namespace SchemaLint

open Sdl Source

/-- A text that is valid as it stands, with no string that ends on a comment line, has no
syntax errors as a schema. Its definitions are those of the text, with the comment lines
in their strings blanked out. -/
theorem definitions_parse_of_valid {path source : String} (hvalid : (read source).faults = [])
    (hclear : ∀ l ∈ lexemes source, l.kind = .token .string →
      endsInComment l.text.toList = false) :
    (SchemaDocument.parse path source).syntaxErrors = [] ∧
      List.Forall₂ (blankedLikeness source).Definitions (read source).definitions
        (SchemaDocument.parse path source).definitions ∧
      ((∀ l ∈ lexemes source, l.kind = .token .string → maskCommentLines l.text = l.text) →
        (SchemaDocument.parse path source).definitions = (read source).definitions) := by
  obtain ⟨hfaults, halike⟩ := read_blanked hvalid hclear
  rw [parse_definitions]
  refine ⟨syntaxErrors_eq_nil_iff.mpr hfaults, halike, fun hplain => ?_⟩
  have hstrict : (blankedLikeness source).Strict := by
    refine ⟨?_, id⟩
    rintro _ _ ⟨l, hl, hkind, rfl, rfl⟩
    rw [hplain l hl hkind]
  exact (Likeness.eq_of_forall₂ halike hstrict.definitions).symm

/-- A comment line within a description. -/
theorem definitions_parse_of_valid_inDescription :
    (read "\"\"\"\n// The\nroot\n\"\"\"\ntype Query \x7b a: Int \x7d").faults = [] ∧
      (SchemaDocument.parse "schema.graphql"
        "\"\"\"\n// The\nroot\n\"\"\"\ntype Query \x7b a: Int \x7d").syntaxErrors = [] ∧
      List.Forall₂
        (blankedLikeness "\"\"\"\n// The\nroot\n\"\"\"\ntype Query \x7b a: Int \x7d").Definitions
        (read "\"\"\"\n// The\nroot\n\"\"\"\ntype Query \x7b a: Int \x7d").definitions
        (SchemaDocument.parse "schema.graphql"
          "\"\"\"\n// The\nroot\n\"\"\"\ntype Query \x7b a: Int \x7d").definitions := by
  have hvalid : (read "\"\"\"\n// The\nroot\n\"\"\"\ntype Query \x7b a: Int \x7d").faults = [] :=
    (read_faults_eq_nil_iff _).mpr ⟨by decide +kernel, by decide +kernel⟩
  obtain ⟨hnone, halike, -⟩ := definitions_parse_of_valid hvalid (by decide +kernel)
  exact ⟨hvalid, hnone, halike⟩

/-- A comment line that closes a string takes the end of the string with it, and one within
a string is gone from its value. -/
theorem parse_commentInString :
    ((read "\"\"\"\n// note \"\"\"\ntype Query \x7b a: Int \x7d").faults = [] ∧
      (SchemaDocument.parse "schema.graphql"
        "\"\"\"\n// note \"\"\"\ntype Query \x7b a: Int \x7d").syntaxErrors ≠ []) ∧
    (read "\"\"\"\n// The\nroot\n\"\"\"\ntype Query \x7b a: Int \x7d").definitions.map
        (·.description) = [some "// The\nroot"] ∧
      (SchemaDocument.parse "schema.graphql"
        "\"\"\"\n// The\nroot\n\"\"\"\ntype Query \x7b a: Int \x7d").definitions.map
        (·.description) = [some "root"] := by
  refine ⟨⟨(read_faults_eq_nil_iff _).mpr ⟨by decide +kernel, by decide +kernel⟩, ?_⟩, ?_, ?_⟩
  · rw [ne_eq, syntaxErrors_eq_nil_iff, read_faults_eq_nil_iff]
    exact fun h => absurd h.1 (by decide +kernel)
  · decide +kernel
  · rw [parse_definitions]
    decide +kernel

end SchemaLint
