import SchemaLint.Proofs.Sdl.Likeness
import SchemaLint.Proofs.Sdl.Order
import SchemaLint.Text.Bytes

/-!
# Two texts lexeme by lexeme

Two texts that are the same but for white space and the insides of strings have the same
lexemes but for these, and are read to definitions alike. `Lockstep` says what has to be
shown for this of a relation between texts, one fact for each kind of lexeme. Words need
none of their own: a word ends at white space at the latest, so it is enough that the
texts agree up to there.
-/

namespace SchemaLint.Sdl

open Text

/-! ## Words -/

/-- Nothing, or white space in front. -/
def Gap (v : List Char) : Prop := ∀ c ∈ v.head?, isSpace c = true

theorem space_cases (h : isSpace c = true) :
    c = ' ' ∨ c = '\t' ∨ c = '\n' ∨ c = '\r' ∨ c = '\uFEFF' := by
  simpa [isSpace, or_assoc] using h

def Scan.IsFault (s : Scan) : Prop := ∃ f, s.kind = .fault f

theorem isFault_fault (more : Nat) (f : LexicalFault) : (Scan.fault more f).IsFault := ⟨f, rfl⟩

theorem not_isFault_token (more : Nat) (kind : TokenKind) : ¬ (Scan.token more kind).IsFault := by
  rintro ⟨_, hf⟩
  cases hf

/-- Two scans are the same and take at most `limit` characters, or both are at fault. -/
inductive Settled (limit : Nat) : Scan → Scan → Prop
  | token {more : Nat} {kind : TokenKind} (hmore : more ≤ limit) (hkind : kind ≠ .string) :
      Settled limit (.token more kind) (.token more kind)
  | fault (more more' : Nat) (f f' : LexicalFault) : Settled limit (.fault more f) (.fault more' f')

theorem Settled.step {n : Nat} {c : Char} {u : List Char} {s s' : Scan}
    (h : Settled (n + 1 + u.length) s s') : Settled (n + (c :: u).length) s s' := by
  rwa [List.length_cons, Nat.add_comm u.length 1, ← Nat.add_assoc]

/-- Scans that settle on the same one are the same. -/
theorem Settled.token_of {limit : Nat} {s s' s₀ : Scan} (h : Settled limit s s₀)
    (h' : Settled limit s' s₀) (hs : ¬ s.IsFault) :
    ∃ more kind, more ≤ limit ∧ kind ≠ .string ∧ s = .token more kind ∧ s' = .token more kind := by
  cases h with
  | token hmore hkind =>
    cases h' with
    | token => exact ⟨_, _, hmore, hkind, rfl, rfl⟩
  | fault => exact absurd (isFault_fault _ _) hs

section Words

variable {v : List Char} (hv : Gap v)
include hv

/-- A scanner whose word ends may not tell white space from the end of the text, but
for the fault that it finds there. -/
theorem settled_of_gap {scanner : List Char → Scan} {limit : Nat}
    (hnil : Settled limit (scanner []) (scanner []))
    (hspace : ∀ c v, c = ' ' ∨ c = '\t' ∨ c = '\n' ∨ c = '\r' ∨ c = '\uFEFF' →
      Settled limit (scanner (c :: v)) (scanner [])) : Settled limit (scanner v) (scanner []) := by
  cases v with
  | nil => exact hnil
  | cons c v => exact hspace c v (space_cases (hv c rfl))

theorem settled_scanExponentDigits (n : Nat) (u : List Char) :
    Settled (n + u.length) (scanExponentDigits n (u ++ v)) (scanExponentDigits n u) := by
  induction u generalizing n with
  | nil =>
    have hend : Settled n (.token n .float) (.token n .float) := .token (Nat.le_refl n) (by decide)
    refine settled_of_gap hv hend fun c v hc => ?_
    rcases hc with rfl | rfl | rfl | rfl | rfl <;> exact hend
  | cons c u ih =>
    rw [List.cons_append, scanExponentDigits, scanExponentDigits]
    split
    · exact (ih (n + 1)).step
    · split
      · exact .fault _ _ _ _
      · exact .token (Nat.le_add_right _ _) (by decide)

theorem settled_scanExponentSigned (n : Nat) (u : List Char) :
    Settled (n + u.length) (scanExponentSigned n (u ++ v)) (scanExponentSigned n u) := by
  cases u with
  | nil =>
    refine settled_of_gap hv (.fault _ _ _ _) fun c v hc => ?_
    rcases hc with rfl | rfl | rfl | rfl | rfl <;> exact .fault _ _ _ _
  | cons c u =>
    rw [List.cons_append, scanExponentSigned, scanExponentSigned]
    split
    · exact (settled_scanExponentDigits hv (n + 1) u).step
    · exact .fault _ _ _ _

theorem settled_scanExponent (n : Nat) (u : List Char) :
    Settled (n + u.length) (scanExponent n (u ++ v)) (scanExponent n u) := by
  cases u with
  | nil =>
    refine settled_of_gap hv (.fault _ _ _ _) fun c v hc => ?_
    rcases hc with rfl | rfl | rfl | rfl | rfl <;> exact .fault _ _ _ _
  | cons c u =>
    rw [List.cons_append, scanExponent, scanExponent]
    split
    · exact (settled_scanExponentDigits hv (n + 1) u).step
    · split
      · exact (settled_scanExponentSigned hv (n + 1) u).step
      · exact .fault _ _ _ _

theorem settled_scanFraction (n : Nat) (u : List Char) :
    Settled (n + u.length) (scanFraction n (u ++ v)) (scanFraction n u) := by
  induction u generalizing n with
  | nil =>
    have hend : Settled n (.token n .float) (.token n .float) := .token (Nat.le_refl n) (by decide)
    refine settled_of_gap hv hend fun c v hc => ?_
    rcases hc with rfl | rfl | rfl | rfl | rfl <;> exact hend
  | cons c u ih =>
    rw [List.cons_append, scanFraction, scanFraction]
    split
    · exact (ih (n + 1)).step
    · split
      · exact (settled_scanExponent hv (n + 1) u).step
      · split
        · exact .fault _ _ _ _
        · exact .token (Nat.le_add_right _ _) (by decide)

theorem settled_scanPoint (n : Nat) (u : List Char) :
    Settled (n + u.length) (scanPoint n (u ++ v)) (scanPoint n u) := by
  cases u with
  | nil =>
    refine settled_of_gap hv (.fault _ _ _ _) fun c v hc => ?_
    rcases hc with rfl | rfl | rfl | rfl | rfl <;> exact .fault _ _ _ _
  | cons c u =>
    rw [List.cons_append, scanPoint, scanPoint]
    split
    · exact (settled_scanFraction hv (n + 1) u).step
    · exact .fault _ _ _ _

theorem settled_scanInteger (n : Nat) (u : List Char) :
    Settled (n + u.length) (scanInteger n (u ++ v)) (scanInteger n u) := by
  induction u generalizing n with
  | nil =>
    have hend : Settled n (.token n .int) (.token n .int) := .token (Nat.le_refl n) (by decide)
    refine settled_of_gap hv hend fun c v hc => ?_
    rcases hc with rfl | rfl | rfl | rfl | rfl <;> exact hend
  | cons c u ih =>
    rw [List.cons_append, scanInteger, scanInteger]
    repeat' split
    · exact (ih (n + 1)).step
    · exact (settled_scanPoint hv (n + 1) u).step
    · exact (settled_scanExponent hv (n + 1) u).step
    · exact .fault _ _ _ _
    · exact .token (Nat.le_add_right _ _) (by decide)

theorem settled_scanZero (n : Nat) (u : List Char) :
    Settled (n + u.length) (scanZero n (u ++ v)) (scanZero n u) := by
  cases u with
  | nil =>
    have hend : Settled n (.token n .int) (.token n .int) := .token (Nat.le_refl n) (by decide)
    refine settled_of_gap hv hend fun c v hc => ?_
    rcases hc with rfl | rfl | rfl | rfl | rfl <;> exact hend
  | cons c u =>
    rw [List.cons_append, scanZero, scanZero]
    repeat' split
    · exact .fault _ _ _ _
    · exact (settled_scanPoint hv (n + 1) u).step
    · exact (settled_scanExponent hv (n + 1) u).step
    · exact .fault _ _ _ _
    · exact .token (Nat.le_add_right _ _) (by decide)

theorem settled_scanMinus (u : List Char) :
    Settled u.length (scanMinus (u ++ v)) (scanMinus u) := by
  cases u with
  | nil =>
    refine settled_of_gap hv (.fault _ _ _ _) fun c v hc => ?_
    rcases hc with rfl | rfl | rfl | rfl | rfl <;> exact .fault _ _ _ _
  | cons c u =>
    rw [List.cons_append, scanMinus, scanMinus, List.length_cons, Nat.add_comm]
    repeat' split
    · exact settled_scanZero hv 1 u
    · exact settled_scanInteger hv 1 u
    · exact .fault _ _ _ _

theorem settled_scanSpread (u : List Char) :
    Settled u.length (scanSpread (u ++ v)) (scanSpread u) := by
  have hshort : ∀ c u, (c = '.' → ∀ w, u ≠ '.' :: w) →
      scanSpread (c :: u) = .fault 1 .unterminatedSpread := by
    intro c u h
    unfold scanSpread
    split
    · next heq =>
      obtain ⟨rfl, rfl⟩ := List.cons.inj heq
      exact absurd rfl (h rfl _)
    · rfl
    · next heq => cases heq
  match u with
  | [] =>
    refine settled_of_gap hv (.fault _ _ _ _) fun c v hc => ?_
    rcases hc with rfl | rfl | rfl | rfl | rfl <;> exact .fault _ _ _ _
  | [c] =>
    have hgap : ∀ w, v ≠ '.' :: w := by
      rintro w rfl
      exact absurd (hv '.' rfl) (by decide)
    rw [List.singleton_append, hshort c v fun _ => hgap, hshort c [] (by simp)]
    exact .fault _ _ _ _
  | c :: d :: u =>
    by_cases hdots : c = '.' ∧ d = '.'
    · obtain ⟨rfl, rfl⟩ := hdots
      exact .token (by simp) (by decide)
    · have hnot : ∀ w : List Char, c = '.' → ∀ w', d :: w ≠ '.' :: w' := by
        intro w hc w' heq
        exact hdots ⟨hc, (List.cons.inj heq).1⟩
      rw [List.cons_append, List.cons_append, hshort _ _ (hnot _), hshort _ _ (hnot _)]
      exact .fault _ _ _ _

theorem takeWhile_isNameContinue_append (u : List Char) :
    (u ++ v).takeWhile isNameContinue = u.takeWhile isNameContinue := by
  have hend : v.takeWhile isNameContinue = [] := by
    cases v with
    | nil => rfl
    | cons c v => rcases space_cases (hv c rfl) with rfl | rfl | rfl | rfl | rfl <;> rfl
  rw [List.takeWhile_append, hend, List.append_nil]
  split
  · next hlength => exact ((List.takeWhile_prefix _).eq_of_length hlength).symm
  · rfl

/-- What starts with a character that opens no string and nothing that is ignored is
known from its own word. -/
theorem settled_scan {c : Char} (hspace : isSpace c = false) (hcomma : c ≠ ',') (hhash : c ≠ '#')
    (hquote : c ≠ '"') (u : List Char) : Settled u.length (scan c (u ++ v)) (scan c u) := by
  unfold scan
  rw [takeWhile_isNameContinue_append hv]
  simp only [hspace, beq_eq_false_iff_ne.mpr hcomma, beq_eq_false_iff_ne.mpr hhash,
    beq_eq_false_iff_ne.mpr hquote, Bool.false_eq_true, if_false]
  split
  · next kind hkind =>
    refine .token (Nat.zero_le _) ?_
    rintro rfl
    exact (punctuator?_ne c).2 hkind
  · repeat' split
    · exact .token (List.takeWhile_prefix _).length_le (by decide)
    · exact settled_scanSpread hv u
    · exact settled_scanMinus hv u
    · simpa using settled_scanZero hv 0 u
    · simpa using settled_scanInteger hv 0 u
    · exact .fault _ _ _ _

end Words

/-! ## Lexemes -/

theorem lexemesFrom_eq_drop (n o : Nat) (cs : List Char) :
    lexemesFrom n o cs = lexemesFrom 0 (o + byteLength (cs.take n)) (cs.drop n) := by
  induction n generalizing o cs with
  | zero => rfl
  | succ n ih =>
    cases cs with
    | nil => rfl
    | cons c cs =>
      rw [lexemesFrom, ih, List.take_succ_cons, byteLength_cons, ← Nat.add_assoc]
      rfl

theorem lexemesFrom_cons (o : Nat) (c : Char) (cs : List Char) :
    lexemesFrom 0 o (c :: cs) =
      ⟨(scan c cs).kind, String.ofList (c :: cs.take (scan c cs).more), o⟩ ::
        lexemesFrom 0 (o + c.utf8Size + byteLength (cs.take (scan c cs).more))
          (cs.drop (scan c cs).more) := by
  rw [lexemesFrom, lexemesFrom_eq_drop]

theorem take_length_takeWhile (p : Char → Bool) (cs : List Char) :
    cs.take (cs.takeWhile p).length = cs.takeWhile p :=
  (List.prefix_iff_eq_take.mp (List.takeWhile_prefix p)).symm

theorem drop_length_takeWhile (p : Char → Bool) (cs : List Char) :
    cs.drop (cs.takeWhile p).length = cs.dropWhile p := by
  have h : (cs.takeWhile p ++ cs.dropWhile p).drop (cs.takeWhile p).length = cs.dropWhile p :=
    List.drop_left
  rwa [List.takeWhile_append_dropWhile] at h

theorem scan_space {c : Char} (hc : isSpace c = true) (cs : List Char) :
    scan c cs = ⟨(cs.takeWhile isSpace).length, .trivia .space⟩ := by
  rcases space_cases hc with rfl | rfl | rfl | rfl | rfl <;> rfl

/-- White space at the front of a text makes at most one lexeme. -/
theorem lexemesFrom_space (o : Nat) (m : List Char) :
    ∃ spaces : List Lexeme, (∀ l ∈ spaces, l.kind = .trivia .space) ∧
      lexemesFrom 0 o m = spaces ++
        lexemesFrom 0 (o + byteLength (m.takeWhile isSpace)) (m.dropWhile isSpace) := by
  cases m with
  | nil => exact ⟨[], by simp, rfl⟩
  | cons c m =>
    by_cases hc : isSpace c = true
    · refine ⟨[⟨.trivia .space, String.ofList (c :: m.takeWhile isSpace), o⟩], by simp, ?_⟩
      rw [lexemesFrom_cons, scan_space hc, take_length_takeWhile, drop_length_takeWhile,
        List.takeWhile_cons_of_pos hc, List.dropWhile_cons_of_pos hc, byteLength_cons,
        ← Nat.add_assoc]
      rfl
    · refine ⟨[], by simp, ?_⟩
      rw [List.takeWhile_cons_of_neg hc, List.dropWhile_cons_of_neg hc]
      rfl

/-- Lexemes that come to the same tokens but for positions and the insides of
strings. Only commas count of what stands between tokens. -/
inductive Alike (L : Likeness) : List Lexeme → List Lexeme → Prop
  | nil : Alike L [] []
  | left {l : Lexeme} {ls ls' : List Lexeme} {kind : TriviaKind} (hk : l.kind = .trivia kind)
      (hne : kind ≠ .comma) (rest : Alike L ls ls') : Alike L (l :: ls) ls'
  | right {l : Lexeme} {ls ls' : List Lexeme} {kind : TriviaKind} (hk : l.kind = .trivia kind)
      (hne : kind ≠ .comma) (rest : Alike L ls ls') : Alike L ls (l :: ls')
  | comma {l l' : Lexeme} {ls ls' : List Lexeme} (hk : l.kind = .trivia .comma)
      (hk' : l'.kind = .trivia .comma) (rest : Alike L ls ls') : Alike L (l :: ls) (l' :: ls')
  | token {l l' : Lexeme} {ls ls' : List Lexeme} {kind : TokenKind} (hk : l.kind = .token kind)
      (hk' : l'.kind = .token kind)
      (ht : L.Tokens ⟨kind, l.text, l.offset, []⟩ ⟨kind, l'.text, l'.offset, []⟩)
      (rest : Alike L ls ls') : Alike L (l :: ls) (l' :: ls')

namespace Alike

variable {L : Likeness} {ls ls' : List Lexeme}

theorem append_left {spaces : List Lexeme} (hs : ∀ l ∈ spaces, l.kind = .trivia .space)
    (h : Alike L ls ls') : Alike L (spaces ++ ls) ls' := by
  induction spaces with
  | nil => exact h
  | cons l spaces ih =>
    exact .left (hs l List.mem_cons_self) (by decide)
      (ih fun l hl => hs l (List.mem_cons_of_mem _ hl))

theorem append_right {spaces : List Lexeme} (hs : ∀ l ∈ spaces, l.kind = .trivia .space)
    (h : Alike L ls ls') : Alike L ls (spaces ++ ls') := by
  induction spaces with
  | nil => exact h
  | cons l spaces ih =>
    exact .right (hs l List.mem_cons_self) (by decide)
      (ih fun l hl => hs l (List.mem_cons_of_mem _ hl))

theorem lexicalFaults_right (h : Alike L ls ls') : lexicalFaults ls' = [] := by
  induction h with
  | nil => rfl
  | left _ _ _ ih => exact ih
  | right hk _ _ ih =>
    rw [lexicalFaults, List.filterMap_cons_none (by rw [hk])]
    exact ih
  | comma _ hk' _ ih =>
    rw [lexicalFaults, List.filterMap_cons_none (by rw [hk'])]
    exact ih
  | token _ hk' _ _ ih =>
    rw [lexicalFaults, List.filterMap_cons_none (by rw [hk'])]
    exact ih

/-- A comma stands between tokens in both texts or in neither. -/
theorem forall₂_gather {ending ending' : Nat} (hending : L.offset ending ending')
    (h : Alike L ls ls') {trivia trivia' : List Trivia}
    (hcomma : trivia.any (·.kind == .comma) = trivia'.any (·.kind == .comma)) :
    List.Forall₂ L.Tokens (gather ending trivia ls) (gather ending' trivia' ls') := by
  induction h generalizing trivia trivia' with
  | nil =>
    refine .cons ⟨rfl, fun _ => rfl, nofun, nofun, hcomma, hending⟩ .nil
  | left hk hne _ ih =>
    rw [gather, hk]
    refine ih ?_
    rw [List.any_append, ← hcomma]
    simp [hne]
  | right hk hne _ ih =>
    rw [gather.eq_2 ending', hk]
    refine ih ?_
    rw [List.any_append, hcomma]
    simp [hne]
  | comma hk hk' _ ih =>
    rw [gather, gather, hk, hk']
    refine ih ?_
    rw [List.any_append, List.any_append, hcomma]
    rfl
  | token hk hk' ht _ ih =>
    rw [gather, gather, hk, hk']
    exact .cons ⟨ht.kind, ht.text, ht.quoted, ht.value, hcomma, ht.offset⟩ (ih rfl)

end Alike

/-- The lexeme at the front of a text. -/
def firstLexeme (o : Nat) (c : Char) (cs : List Char) : Lexeme :=
  ⟨(scan c cs).kind, String.ofList (c :: cs.take (scan c cs).more), o⟩

theorem lexicalFaults_eq_nil_iff {ls : List Lexeme} :
    lexicalFaults ls = [] ↔ ∀ l ∈ ls, ∀ f, l.kind ≠ .fault f := by
  rw [lexicalFaults, List.filterMap_eq_nil_iff]
  refine forall₂_congr fun l _ => ?_
  cases l.kind <;> simp

/-- What it takes to go through two texts in step. `S` relates what is left of the texts
between two lexemes, `N` what is left behind the first character of a lexeme or further
in it. `P` and `Q` are known of the lexemes. -/
structure Lockstep (L : Likeness) (P Q : Lexeme → Prop)
    (S N : Nat → Nat → List Char → List Char → Prop) : Prop where
  faultless : (∀ l, P l → ∀ f, l.kind ≠ .fault f) ∨ ∀ l, Q l → ∀ f, l.kind ≠ .fault f
  nil : ∀ {o o' : Nat} {t : List Char}, S o o' [] t → t = []
  space : ∀ {o o' : Nat} {m t : List Char}, S o o' m t → (∀ l ∈ lexemesFrom 0 o m, P l) →
    S (o + byteLength (m.takeWhile isSpace)) (o' + byteLength (t.takeWhile isSpace))
      (m.dropWhile isSpace) (t.dropWhile isSpace)
  first : ∀ {o o' : Nat} {c : Char} {m t : List Char}, isSpace c = false → S o o' (c :: m) t →
    ∃ t', t = c :: t' ∧ L.offset o o' ∧ N (o + c.utf8Size) (o' + c.utf8Size) m t'
  behind : ∀ {o o' : Nat} {m t : List Char}, N o o' m t → S o o' m t
  comment : ∀ {o o' : Nat} {m t : List Char}, N o o' m t →
    N (o + byteLength (m.takeWhile (!isCommentEnd ·)))
      (o' + byteLength (t.takeWhile (!isCommentEnd ·)))
      (m.dropWhile (!isCommentEnd ·)) (t.dropWhile (!isCommentEnd ·))
  word : ∀ {o o' : Nat} {m t : List Char}, N o o' m t →
    ∃ u m' t', m = u ++ m' ∧ t = u ++ t' ∧ Gap m' ∧ Gap t' ∧ ∀ k ≤ u.length,
      N (o + byteLength (m.take k)) (o' + byteLength (t.take k)) (m.drop k) (t.drop k)
  string : ∀ {o o' : Nat} {m t : List Char}, L.offset o o' → N (o + 1) (o' + 1) m t →
    P (firstLexeme o '"' m) → Q (firstLexeme o' '"' t) →
    ∃ k k', scanQuote m = .token k .string ∧ scanQuote t = .token k' .string ∧
      N (o + 1 + byteLength (m.take k)) (o' + 1 + byteLength (t.take k')) (m.drop k) (t.drop k') ∧
      L.value (stringValue (String.ofList ('"' :: m.take k)))
        (stringValue (String.ofList ('"' :: t.take k')))

namespace Lockstep

variable {L : Likeness} {P Q : Lexeme → Prop} {S N : Nat → Nat → List Char → List Char → Prop}
  (hstep : Lockstep L P Q S N) {o o' : Nat} {m t : List Char}
include hstep

/-- A word is read alike in both texts, because it is sound in one of them. -/
theorem scan_word {c : Char} (hc : isSpace c = false) (hcomma : c ≠ ',') (hhash : c ≠ '#')
    (hquote : c ≠ '"') {u m' t' : List Char} (hm : Gap m') (ht : Gap t')
    (hP : P (firstLexeme o c (u ++ m'))) (hQ : Q (firstLexeme o' c (u ++ t'))) :
    ∃ more kind, more ≤ u.length ∧ kind ≠ .string ∧ scan c (u ++ m') = .token more kind ∧
      scan c (u ++ t') = .token more kind := by
  have hm := settled_scan hm hc hcomma hhash hquote u
  have ht := settled_scan ht hc hcomma hhash hquote u
  obtain hfaultless | hfaultless := hstep.faultless
  · exact hm.token_of ht (not_exists.mpr (hfaultless _ hP))
  · obtain ⟨more, kind, hmore, hkind, ht, hm⟩ :=
      ht.token_of hm (not_exists.mpr (hfaultless _ hQ))
    exact ⟨more, kind, hmore, hkind, hm, ht⟩

/-- One lexeme that is no white space, and then what is left of the two texts. -/
theorem alike_cons {c : Char} (hc : isSpace c = false) (here : L.offset o o')
    (h : N (o + c.utf8Size) (o' + c.utf8Size) m t)
    (hP : ∀ l ∈ lexemesFrom 0 o (c :: m), P l) (hQ : ∀ l ∈ lexemesFrom 0 o' (c :: t), Q l)
    (ih : ∀ k k', N (o + c.utf8Size + byteLength (m.take k))
        (o' + c.utf8Size + byteLength (t.take k')) (m.drop k) (t.drop k') →
      (∀ l ∈ lexemesFrom 0 (o + c.utf8Size + byteLength (m.take k)) (m.drop k), P l) →
      (∀ l ∈ lexemesFrom 0 (o' + c.utf8Size + byteLength (t.take k')) (t.drop k'), Q l) →
      Alike L (lexemesFrom 0 (o + c.utf8Size + byteLength (m.take k)) (m.drop k))
        (lexemesFrom 0 (o' + c.utf8Size + byteLength (t.take k')) (t.drop k'))) :
    Alike L (lexemesFrom 0 o (c :: m)) (lexemesFrom 0 o' (c :: t)) := by
  rw [lexemesFrom_cons] at hP hQ
  obtain ⟨hPfirst, hP⟩ := List.forall_mem_cons.mp hP
  obtain ⟨hQfirst, hQ⟩ := List.forall_mem_cons.mp hQ
  rw [lexemesFrom_cons, lexemesFrom_cons]
  by_cases hcomma : c = ','
  · subst hcomma
    exact .comma rfl rfl (ih 0 0 h hP hQ)
  by_cases hhash : c = '#'
  · subst hhash
    have hscan : ∀ cs, scan '#' cs =
        ⟨(cs.takeWhile (!isCommentEnd ·)).length, .trivia .comment⟩ := fun _ => rfl
    refine .left rfl (by decide) (.right rfl (by decide) (ih _ _ ?_ hP hQ))
    rw [hscan, hscan, take_length_takeWhile, take_length_takeWhile, drop_length_takeWhile,
      drop_length_takeWhile]
    exact hstep.comment h
  by_cases hquote : c = '"'
  · subst hquote
    obtain ⟨k, k', hm, ht, hmatch, hvalue⟩ := hstep.string here h hPfirst hQfirst
    have hscan : ∀ cs, scan '"' cs = scanQuote cs := fun _ => rfl
    rw [hscan, hm] at hP ⊢
    rw [hscan, ht] at hQ ⊢
    refine .token rfl rfl ⟨rfl, nofun, fun _ => ?_, fun _ => hvalue, rfl, here⟩
      (ih k k' hmatch hP hQ)
    simp [startsQuoted]
  obtain ⟨u, m', t', rfl, rfl, hm', ht', hmatch⟩ := hstep.word h
  obtain ⟨more, kind, hmore, hkind, hm, ht⟩ :=
    hstep.scan_word hc hcomma hhash hquote hm' ht' hPfirst hQfirst
  rw [hm] at hP ⊢
  rw [ht] at hQ ⊢
  have htext : (u ++ m').take more = (u ++ t').take more := by
    rw [List.take_append_of_le_length hmore, List.take_append_of_le_length hmore]
  refine .token rfl rfl
    ⟨rfl, fun _ => ?_, fun h => absurd h hkind, fun h => absurd h hkind, rfl, here⟩
    (ih more more (hmatch more hmore) hP hQ)
  exact congrArg (fun cs => String.ofList (c :: cs)) htext

/-- Texts that are gone through in step have lexemes alike. -/
theorem alike (h : S o o' m t) (hP : ∀ l ∈ lexemesFrom 0 o m, P l)
    (hQ : ∀ l ∈ lexemesFrom 0 o' t, Q l) :
    Alike L (lexemesFrom 0 o m) (lexemesFrom 0 o' t) := by
  induction hn : m.length using Nat.strongRecOn generalizing o o' m t with
  | ind n ih =>
    have hmatch := hstep.space h hP
    obtain ⟨spaces, hspaces, hm⟩ := lexemesFrom_space o m
    obtain ⟨spaces', hspaces', ht⟩ := lexemesFrom_space o' t
    rw [hm] at hP ⊢
    rw [ht] at hQ ⊢
    have hP := fun l hl => hP l (List.mem_append_right _ hl)
    have hQ := fun l hl => hQ l (List.mem_append_right _ hl)
    refine .append_left hspaces (.append_right hspaces' ?_)
    have hlength : (m.dropWhile isSpace).length ≤ n := hn ▸ (List.dropWhile_suffix _).length_le
    have hhead := List.head?_dropWhile_not isSpace m
    generalize m.dropWhile isSpace = m₁ at *
    cases m₁ with
    | nil =>
      rw [hstep.nil hmatch]
      exact .nil
    | cons c m₁ =>
      have hc : isSpace c = false := by simpa using hhead
      obtain ⟨t₁, ht₁, here, hrest⟩ := hstep.first hc hmatch
      rw [ht₁] at hQ ⊢
      refine hstep.alike_cons hc here hrest hP hQ fun k k' hk hPk hQk => ?_
      refine ih _ ?_ (hstep.behind hk) hPk hQk rfl
      rw [List.length_drop]
      rw [List.length_cons] at hlength
      omega

end Lockstep

/-- Texts with lexemes alike are read to definitions alike. -/
theorem read_of_alike {L : Likeness} {text thin : String}
    (halike : Alike L (lexemes text) (lexemes thin))
    (hending : L.offset text.utf8ByteSize thin.utf8ByteSize) (hf : (read text).faults = []) :
    (read thin).faults = [] ∧
      List.Forall₂ L.Definitions (read text).definitions (read thin).definitions := by
  have hgrammar := ((read_faults_eq_nil_iff text).mp hf).2
  have htokens : List.Forall₂ L.Tokens (tokens text) (tokens thin) :=
    halike.forall₂_gather hending rfl
  obtain ⟨hdefinitions, hmatched⟩ := Parser.agrees_document _ _ ⟨htokens⟩ hgrammar
  have hthin : (Parser.document (.start (tokens thin))).2.faults = [] := by
    generalize (Parser.document (.start (tokens text))).2 = s at hmatched
    generalize (Parser.document (.start (tokens thin))).2 = s' at hmatched ⊢
    obtain ⟨_⟩ := hmatched
    rfl
  exact ⟨(read_faults_eq_nil_iff thin).mpr ⟨halike.lexicalFaults_right, hthin⟩, hdefinitions⟩

end SchemaLint.Sdl
