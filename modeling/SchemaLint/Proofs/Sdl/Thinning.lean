import SchemaLint.Proofs.Sdl.Lockstep

/-!
# Texts with less white space

White space at the start of a line, right before a line feed or at the end of a text
can be left out without a change to what is read. Line ends belong to it, so whole
blank lines can go, also those inside a block string. `Thins` says that a text comes
from another one in this way. A string that is not a block string is the delicate
case: nothing can be left out inside it, because a line break there is a fault, but
for a line feed right behind the opening quote.
-/

namespace SchemaLint.Sdl

open Text

/-- White space that is blank, which a byte order mark is not. -/
def IsFill (c : Char) : Prop := isSpace c = true ∧ c ≠ '\uFEFF'

/-- `Thins R fresh o o' m t`: the text `t` at position `o'` is the text `m` at position
`o` with white space left out, and `R` relates the positions of all that is kept.
`fresh` tells that `t` is at the start of a line. -/
inductive Thins (R : Nat → Nat → Prop) : Bool → Nat → Nat → List Char → List Char → Prop
  | nil {fresh : Bool} {o o' : Nat} : Thins R fresh o o' [] []
  | keep {fresh : Bool} {o o' : Nat} {m t : List Char} (c : Char) (here : R o o')
      (rest : Thins R (c == '\n') (o + c.utf8Size) (o' + c.utf8Size) m t) :
      Thins R fresh o o' (c :: m) (c :: t)
  | drop {fresh : Bool} {o o' : Nat} {m t : List Char} (c : Char) (hc : IsFill c)
      (free : fresh = true ∨ t = [] ∨ t.head? = some '\n')
      (rest : Thins R fresh (o + c.utf8Size) o' m t) : Thins R fresh o o' (c :: m) t

namespace Thins

variable {R : Nat → Nat → Prop} {fresh : Bool} {o o' : Nat} {m t : List Char} {c : Char}

theorem left_nil (h : Thins R fresh o o' [] t) : t = [] := by
  cases h
  rfl

/-- What is no white space is kept. -/
theorem of_cons_left (hc : isSpace c = false) (h : Thins R fresh o o' (c :: m) t) :
    ∃ t', t = c :: t' ∧ R o o' ∧ Thins R false (o + c.utf8Size) (o' + c.utf8Size) m t' := by
  cases h with
  | @keep _ _ _ _ t' _ here rest =>
    have hne : (c == '\n') = false := by
      rw [beq_eq_false_iff_ne]
      rintro rfl
      exact absurd hc (by decide)
    rw [hne] at rest
    exact ⟨t', rfl, here, rest⟩
  | drop _ hfill => exact absurd hfill.1 (by rw [hc]; decide)

/-- Within a line that goes on nothing is put in. -/
theorem of_cons_right (hc : c ≠ '\n') (h : Thins R false o o' m (c :: t)) :
    ∃ m', m = c :: m' ∧ Thins R false (o + c.utf8Size) (o' + c.utf8Size) m' t := by
  cases h with
  | @keep _ _ _ m' _ _ here rest =>
    rw [beq_eq_false_iff_ne.mpr hc] at rest
    exact ⟨m', rfl, rest⟩
  | drop _ _ free =>
    obtain hfresh | hnil | hhead := free
    · cases hfresh
    · cases hnil
    · exact absurd (Option.some.inj hhead) hc

/-- Passing over the white space at the front of both texts. -/
theorem dropSpace (h : Thins R fresh o o' m t) :
    ∃ fresh', Thins R fresh' (o + byteLength (m.takeWhile isSpace))
      (o' + byteLength (t.takeWhile isSpace)) (m.dropWhile isSpace) (t.dropWhile isSpace) := by
  induction h with
  | nil => exact ⟨true, .nil⟩
  | @keep fresh o o' m t c here rest ih =>
    by_cases hc : isSpace c = true
    · obtain ⟨fresh', hrest⟩ := ih
      simp only [List.takeWhile_cons, List.dropWhile_cons, hc, if_true, byteLength_cons]
      rw [← Nat.add_assoc, ← Nat.add_assoc]
      exact ⟨fresh', hrest⟩
    · simp only [List.takeWhile_cons, List.dropWhile_cons, hc]
      exact ⟨fresh, .keep c here rest⟩
  | drop c hc free rest ih =>
    obtain ⟨fresh', hrest⟩ := ih
    simp only [List.takeWhile_cons, List.dropWhile_cons, hc.1, if_true, byteLength_cons]
    rw [← Nat.add_assoc]
    exact ⟨fresh', hrest⟩

/-- Passing over the rest of a comment. -/
theorem dropComment (h : Thins R false o o' m t) :
    Thins R false (o + byteLength (m.takeWhile (!isCommentEnd ·)))
      (o' + byteLength (t.takeWhile (!isCommentEnd ·)))
      (m.dropWhile (!isCommentEnd ·)) (t.dropWhile (!isCommentEnd ·)) := by
  generalize hfresh : false = fresh at h
  induction h with
  | nil => exact .nil
  | @keep fresh o o' m t c here rest ih =>
    by_cases hc : isCommentEnd c = true
    · simp only [List.takeWhile_cons, List.dropWhile_cons, hc, Bool.not_true]
      exact .keep c here rest
    · have hne : false = (c == '\n') := by
        rw [eq_comm, beq_eq_false_iff_ne]
        rintro rfl
        exact hc (by decide)
      simp only [List.takeWhile_cons, List.dropWhile_cons, hc, Bool.not_false, if_true,
        byteLength_cons]
      rw [← Nat.add_assoc, ← Nat.add_assoc, hfresh.symm.trans hne]
      exact ih hne
  | @drop fresh o o' m t c hfill free rest ih =>
    by_cases hc : isCommentEnd c = true
    · have hstop : t.takeWhile (!isCommentEnd ·) = [] ∧ t.dropWhile (!isCommentEnd ·) = t := by
        obtain rfl | rfl | hhead := free
        · cases hfresh
        · exact ⟨rfl, rfl⟩
        · cases t with
          | nil => exact ⟨rfl, rfl⟩
          | cons d t =>
            obtain rfl : d = '\n' := Option.some.inj hhead
            exact ⟨rfl, rfl⟩
      simp only [List.takeWhile_cons, List.dropWhile_cons, hc, Bool.not_true, byteLength_nil,
        Nat.add_zero, hstop.1, hstop.2]
      exact .drop c hfill free rest
    · simp only [List.takeWhile_cons, List.dropWhile_cons, hc, Bool.not_false, if_true,
        byteLength_cons]
      rw [← Nat.add_assoc]
      exact ih hfresh

end Thins

/-! ## Strings -/

section Strings

open Thins

variable {R : Nat → Nat → Prop} {fresh : Bool} {o o' : Nat} {m t : List Char}

/-- Two scans, given how far they have come, find the end of a string in `m` and in
`t`, and behind it the texts match again. -/
def Closes (R : Nat → Nat → Prop) (o o' : Nat) (m t : List Char) (s s' : Nat → Scan) : Prop :=
  ∃ k k', (∀ n, s n = .token (n + k) .string) ∧ (∀ n, s' n = .token (n + k') .string) ∧
    Thins R false (o + byteLength (m.take k)) (o' + byteLength (t.take k')) (m.drop k) (t.drop k')

theorem Closes.step (p p' : List Char) {s s' s₁ s₁' : Nat → Scan}
    (h : Closes R (o + byteLength p) (o' + byteLength p') m t s₁ s₁')
    (hs : ∀ n, s n = s₁ (n + p.length)) (hs' : ∀ n, s' n = s₁' (n + p'.length)) :
    Closes R o o' (p ++ m) (p' ++ t) s s' := by
  obtain ⟨k, k', hm, ht, hrest⟩ := h
  refine ⟨p.length + k, p'.length + k', fun n => ?_, fun n => ?_, ?_⟩
  · rw [hs, hm, Nat.add_assoc]
  · rw [hs', ht, Nat.add_assoc]
  · rwa [List.take_length_add_append, List.take_length_add_append, List.drop_length_add_append,
      List.drop_length_add_append, byteLength_append, byteLength_append, ← Nat.add_assoc,
      ← Nat.add_assoc]

/-- A block string may lose white space anywhere. -/
theorem closes_scanBlockString {n : Nat} (h : Thins R fresh o o' m t)
    (hs : ¬ (scanBlockString n m).IsFault) :
    Closes R o o' m t (scanBlockString · m) (scanBlockString · t) := by
  fun_induction scanBlockString n m generalizing fresh o o' t with
  | case1 n cs =>
    obtain ⟨t, rfl, -, h⟩ := h.of_cons_left (by decide)
    obtain ⟨t, rfl, -, h⟩ := h.of_cons_left (by decide)
    obtain ⟨t, rfl, -, h⟩ := h.of_cons_left (by decide)
    exact ⟨3, 3, fun _ => rfl, fun _ => rfl, h⟩
  | case2 n cs ih =>
    obtain ⟨t, rfl, -, h⟩ := h.of_cons_left (by decide)
    obtain ⟨t, rfl, -, h⟩ := h.of_cons_left (by decide)
    obtain ⟨t, rfl, -, h⟩ := h.of_cons_left (by decide)
    obtain ⟨t, rfl, -, h⟩ := h.of_cons_left (by decide)
    let p := ['\\', '"', '"', '"']
    exact Closes.step p p (ih h hs) (fun _ => rfl) (fun _ => rfl)
  | case3 n cs hcs ih =>
    obtain ⟨t, rfl, -, h⟩ := h.of_cons_left (by decide)
    obtain ⟨t, rfl, -, h⟩ := h.of_cons_left (by decide)
    obtain ⟨t, rfl, -, h⟩ := h.of_cons_left (by decide)
    have ht : ∀ t', t = '"' :: t' → False := by
      rintro t' rfl
      obtain ⟨cs, rfl, -⟩ := h.of_cons_right (by decide)
      exact hcs cs rfl
    let p := ['\\', '"', '"']
    refine Closes.step p p (ih h hs) (fun n => ?_) (fun n => ?_)
    · exact scanBlockString.eq_3 n cs hcs
    · exact scanBlockString.eq_3 n t ht
  | case4 n cs hcs hcs' ih =>
    obtain ⟨t, rfl, -, h⟩ := h.of_cons_left (by decide)
    obtain ⟨t, rfl, -, h⟩ := h.of_cons_left (by decide)
    have ht : ∀ t', t = '"' :: t' → False := by
      rintro t' rfl
      obtain ⟨cs, rfl, -⟩ := h.of_cons_right (by decide)
      exact hcs' cs rfl
    let p := ['\\', '"']
    refine Closes.step p p (ih h hs) (fun n => ?_) (fun n => ?_)
    · exact scanBlockString.eq_4 n cs hcs hcs'
    · exact scanBlockString.eq_4 n t (fun _ => ht _) ht
  | case5 n c cs h1 h2 h3 h4 ih =>
    have hm : ∀ n, scanBlockString n (c :: cs) = scanBlockString (n + 1) cs :=
      fun n => scanBlockString.eq_5 n c cs h1 h2 h3 h4
    cases h with
    | @keep _ _ _ _ t _ here rest =>
      have hquotes : ∀ t', c = '"' → t = '"' :: '"' :: t' → False := by
        rintro t' rfl rfl
        obtain ⟨cs, rfl, hrest⟩ := of_cons_right (by decide) rest
        obtain ⟨cs, rfl, -⟩ := hrest.of_cons_right (by decide)
        exact h1 cs rfl rfl
      have hescape : ∀ t', c = '\\' → t = '"' :: t' → False := by
        rintro t' rfl rfl
        obtain ⟨cs, rfl, -⟩ := of_cons_right (by decide) rest
        exact h4 cs rfl rfl
      refine Closes.step [c] [c] (ih rest hs) hm fun n => ?_
      exact scanBlockString.eq_5 n c t hquotes (fun _ => hescape _) (fun _ => hescape _) hescape
    | drop _ hc _ rest => exact Closes.step [c] [] (ih rest hs) hm (fun _ => rfl)
  | case6 n => exact absurd (isFault_fault _ _) hs

/-- What a character does to the fault noted in a string does not depend on that fault:
it is left, or another one is noted. -/
inductive Notes (step : Option LexicalFault → StringMode × Option LexicalFault) : Prop
  | leaves (mode : StringMode) (h : ∀ noted, step noted = (mode, noted))
  | sets (mode : StringMode) (f : LexicalFault) (h : ∀ noted, step noted = (mode, some f))

namespace Notes

theorem leave (mode : StringMode) : Notes fun noted => (mode, noted) := .leaves mode fun _ => rfl

theorem set (mode : StringMode) (f : LexicalFault) : Notes fun _ => (mode, some f) :=
  .sets mode f fun _ => rfl

theorem ite {p : Prop} [Decidable p] {a b : Option LexicalFault → StringMode × Option LexicalFault}
    (ha : Notes a) (hb : Notes b) : Notes fun noted => if p then a noted else b noted := by
  by_cases hp : p
  · simpa only [if_pos hp] using ha
  · simpa only [if_neg hp] using hb

theorem closeFixed (value : Nat) (paired : Bool) : Notes (Sdl.closeFixed · value paired) :=
  .ite (.ite (.leave _) (.set _ _)) (.ite (.leave _) (.ite (.set _ _) (.leave _)))

theorem stepFixed (owed value : Nat) (paired : Bool) (c : Char) :
    Notes (Sdl.stepFixed · owed value paired c) := by
  unfold Sdl.stepFixed
  cases hexDigit? c with
  | none => exact .set _ _
  | some d => exact .ite (.closeFixed _ _) (.leave _)

theorem stepString (mode : StringMode) (c : Char) : Notes (Sdl.stepString mode · c) := by
  cases mode with
  | body => exact .ite (.leave _) (.ite (.set _ _) (.leave _))
  | escape => exact .ite (.leave _) (.ite (.leave _) (.set _ _))
  | unicode => exact .ite (.leave _) (.stepFixed _ _ _ _)
  | fixed owed value paired => exact .stepFixed _ _ _ _
  | braced digits value =>
    refine .ite (.ite (.leave _) (.set _ _)) ?_
    cases hexDigit? c with
    | none => exact .set _ _
    | some d => exact .leave _
  | afterLead => exact .ite (.leave _) (.set _ _)
  | afterLeadEscape => exact .ite (.leave _) (.set _ _)

end Notes

/-- A fault that is noted in a string is never forgotten. -/
theorem isSome_stepString {noted : Option LexicalFault} (h : noted.isSome) (mode : StringMode)
    (c : Char) : (stepString mode noted c).2.isSome := by
  cases Notes.stepString mode c with
  | leaves mode' hstep => rwa [hstep]
  | sets mode' f hstep => rw [hstep, Option.isSome_some]

/-- No mode takes a line feed. -/
theorem isSome_stepString_lineFeed (mode : StringMode) (noted : Option LexicalFault) :
    (stepString mode noted '\n').2.isSome := by
  cases mode <;> rfl

theorem isFault_scanString_of_isSome {noted : Option LexicalFault} (h : noted.isSome)
    (mode : StringMode) (n : Nat) (cs : List Char) : (scanString mode noted n cs).IsFault := by
  induction cs generalizing mode noted n with
  | nil => exact isFault_fault _ _
  | cons c cs ih =>
    have hstep := isSome_stepString h mode c
    rw [scanString]
    split
    · split
      · next hclose =>
        obtain ⟨f, rfl⟩ := Option.isSome_iff_exists.mp h
        cases mode <;> cases hclose
      · exact isFault_fault _ _
      · exact ih hstep _ _
    · exact ih hstep _ _

/-- A string does not close in white space before a line feed or the end. -/
theorem isFault_scanString_of_blank (h : Thins R fresh o o' m t)
    (ht : t = [] ∨ t.head? = some '\n') (mode : StringMode) (noted : Option LexicalFault)
    (n : Nat) : (scanString mode noted n m).IsFault := by
  induction h generalizing mode noted n with
  | nil => exact isFault_fault _ _
  | keep c here rest ih =>
    obtain rfl : c = '\n' := by simpa using ht
    rw [scanString]
    exact isFault_scanString_of_isSome (isSome_stepString_lineFeed mode noted) _ _ _
  | drop c hc free rest ih =>
    have hquote : (c == '"') = false := by
      rcases space_cases hc.1 with rfl | rfl | rfl | rfl | rfl <;> rfl
    rw [scanString, hquote]
    exact ih ht _ _ _

/-- White space within a line that is no line end leaves the reading between characters. -/
theorem stepBody_space {c : Char} (hc : isSpace c = true) (noted : Option LexicalFault) :
    stepString .body noted c = (.body, noted) ∨ (stepString .body noted c).2.isSome := by
  rcases space_cases hc with rfl | rfl | rfl | rfl | rfl
  · exact .inl rfl
  · exact .inl rfl
  · exact .inr rfl
  · exact .inr rfl
  · exact .inl rfl

/-- A character that does not close a string is a step. -/
theorem scanString_step {mode : StringMode} {noted : Option LexicalFault} {c : Char}
    (h : c = '"' → closeString? mode noted = none) (n : Nat) (cs : List Char) :
    scanString mode noted n (c :: cs) =
      scanString (stepString mode noted c).1 (stepString mode noted c).2 (n + 1) cs := by
  rw [scanString]
  split
  · next hc => rw [h (beq_iff_eq.mp hc)]
  · rfl

theorem scanString_close {mode : StringMode} {noted noted' : Option LexicalFault}
    (h : closeString? mode noted = some noted') (n : Nat) (cs : List Char) :
    scanString mode noted n ('"' :: cs) =
      noted'.elim (.token (n + 1) .string) (.fault (n + 1) ·) := by
  rw [scanString, h]
  cases noted' <;> rfl

/-- Nothing can be left out in a string but white space at the start of its second
line. -/
theorem closes_scanString {mode : StringMode} {noted : Option LexicalFault} {n : Nat}
    (h : Thins R fresh o o' m t) (hfresh : fresh = true → mode = .body)
    (hs : ¬ (scanString mode noted n m).IsFault) :
    Closes R o o' m t (scanString mode noted · m) (scanString mode noted · t) := by
  induction h generalizing mode noted n with
  | nil => exact absurd (isFault_fault _ _) hs
  | @keep fresh o o' m t c here rest ih =>
    by_cases hstep : c = '"' → closeString? mode noted = none
    · rw [scanString_step hstep] at hs
      -- A line feed would be a fault, so the line goes on.
      have hne : c ≠ '\n' := by
        rintro rfl
        exact hs (isFault_scanString_of_isSome (isSome_stepString_lineFeed mode noted) _ _ _)
      have hmode : (c == '\n') = true → (stepString mode noted c).1 = .body :=
        fun h => absurd (beq_iff_eq.mp h) hne
      exact Closes.step [c] [c] (ih hmode hs) (fun n => scanString_step hstep n m)
        (fun n => scanString_step hstep n t)
    · obtain ⟨rfl, hclose⟩ := not_forall.mp hstep
      obtain ⟨noted', hnoted⟩ := Option.ne_none_iff_exists'.mp hclose
      cases noted' with
      | none => exact ⟨1, 1, (scanString_close hnoted · m), (scanString_close hnoted · t), rest⟩
      | some f =>
        rw [scanString_close hnoted] at hs
        exact absurd (isFault_fault _ _) hs
  | @drop fresh o o' m t c hc free rest ih =>
    obtain hf | ht := free
    · have hmode := hfresh hf
      subst hmode
      have hquote : c = '"' → closeString? .body noted = none := by
        rintro rfl
        exact absurd hc.1 (by decide)
      rw [scanString_step hquote] at hs
      obtain hstep | hnoted := stepBody_space hc.1 noted
      · rw [hstep] at hs
        refine Closes.step [c] [] (ih hfresh hs) (fun n => ?_) (fun _ => rfl)
        rw [scanString_step hquote, hstep]
        rfl
      · exact absurd (isFault_scanString_of_isSome hnoted _ _ _) hs
    · exact absurd (isFault_scanString_of_blank (.drop c hc (.inr ht) rest) ht mode noted n) hs

theorem Closes.start {s s' : Nat → Scan} (h : Closes R o o' m t s s') :
    ∃ k k', s 0 = .token k .string ∧ s' 0 = .token k' .string ∧
      Thins R false (o + byteLength (m.take k)) (o' + byteLength (t.take k'))
        (m.drop k) (t.drop k') := by
  obtain ⟨k, k', hm, ht, hrest⟩ := h
  refine ⟨k, k', ?_, ?_, hrest⟩
  · rw [hm, Nat.zero_add]
  · rw [ht, Nat.zero_add]

theorem scanQuote_thins (h : Thins R false o o' m t) (hs : ¬ (scanQuote m).IsFault) :
    ∃ k k', scanQuote m = .token k .string ∧ scanQuote t = .token k' .string ∧
      Thins R false (o + byteLength (m.take k)) (o' + byteLength (t.take k'))
        (m.drop k) (t.drop k') := by
  fun_cases scanQuote m with
  | case1 => exact absurd (isFault_fault _ _) hs
  | case2 cs =>
    obtain ⟨t, rfl, -, h⟩ := h.of_cons_left (by decide)
    obtain ⟨t, rfl, -, h⟩ := h.of_cons_left (by decide)
    let p := ['"', '"']
    exact Closes.start (Closes.step p p (closes_scanBlockString h hs) (fun _ => rfl) (fun _ => rfl))
  | case3 cs hcs =>
    obtain ⟨t, rfl, -, h⟩ := h.of_cons_left (by decide)
    have ht : ∀ t', t = '"' :: t' → False := by
      rintro t' rfl
      obtain ⟨cs, rfl, -⟩ := h.of_cons_right (by decide)
      exact hcs cs rfl
    exact ⟨1, 1, rfl, scanQuote.eq_3 t ht, h⟩
  | case4 cs =>
    obtain ⟨t, rfl, -, h⟩ := h.of_cons_left (by decide)
    have hrest := closes_scanString h (fun hf => nomatch hf) hs
    exact Closes.start (Closes.step ['\\'] ['\\'] hrest (fun _ => rfl) (fun _ => rfl))
  | case5 c cs h1 h2 h3 =>
    rw [scanQuote.eq_5 c cs h1 h2 h3] at hs
    cases h with
    | @keep _ _ _ _ t _ here rest =>
      have hrest := closes_scanString rest (fun _ => rfl) hs
      have ht : scanQuote (c :: t) = scanString .body none 1 t :=
        scanQuote.eq_5 c t (fun t' hc _ => h2 hc) h2 h3
      rw [ht]
      exact Closes.start (Closes.step [c] [c] hrest (fun _ => rfl) (fun _ => rfl))
    | drop _ hc free rest =>
      obtain hf | ht := free
      · cases hf
      · exact absurd (isFault_scanString_of_blank rest ht .body none 1) hs

end Strings

/-! ## Lexemes -/

/-- The texts agree up to the next white space, and they match behind every part of
what they agree in. -/
theorem Thins.word {R : Nat → Nat → Prop} {o o' : Nat} {m t : List Char}
    (h : Thins R false o o' m t) :
    ∃ u m' t', m = u ++ m' ∧ t = u ++ t' ∧ Gap m' ∧ Gap t' ∧ ∀ k ≤ u.length,
      Thins R false (o + byteLength (m.take k)) (o' + byteLength (t.take k))
        (m.drop k) (t.drop k) := by
  induction m generalizing o o' t with
  | nil =>
    obtain rfl := h.left_nil
    refine ⟨[], [], [], rfl, rfl, by simp [Gap], by simp [Gap], fun k _ => ?_⟩
    rw [List.take_nil, List.drop_nil]
    exact .nil
  | cons c m ih =>
    by_cases hc : isSpace c = true
    · have hgap : Gap t := by
        cases h with
        | keep => simpa [Gap] using hc
        | drop _ _ free =>
          obtain hf | rfl | hhead := free
          · cases hf
          · simp [Gap]
          · rw [Gap, hhead]
            simp only [Option.mem_some_iff, forall_eq']
            decide
      refine ⟨[], c :: m, t, rfl, rfl, by simpa [Gap] using hc, hgap, fun k hk => ?_⟩
      obtain rfl : k = 0 := Nat.le_zero.mp hk
      exact h
    · obtain ⟨t, rfl, -, hrest⟩ := h.of_cons_left (by simpa using hc)
      obtain ⟨u, m', t', rfl, rfl, hm', ht', hmatch⟩ := ih hrest
      refine ⟨c :: u, m', t', rfl, rfl, hm', ht', fun k hk => ?_⟩
      cases k with
      | zero => exact h
      | succ k =>
        have hmatch := hmatch k (Nat.le_of_succ_le_succ hk)
        rwa [Nat.add_assoc, Nat.add_assoc] at hmatch

/-- Facts about the lexemes of two texts by which they match: the lexemes of one text are
not at fault, and strings match. -/
structure Comparable (L : Likeness) (P Q : Lexeme → Prop) : Prop where
  faultless : (∀ l, P l → ∀ f, l.kind ≠ .fault f) ∨ ∀ l, Q l → ∀ f, l.kind ≠ .fault f
  string : ∀ {o o' : Nat} {m t : List Char}, L.offset o o' →
    Thins L.offset false (o + 1) (o' + 1) m t → P (firstLexeme o '"' m) →
    Q (firstLexeme o' '"' t) →
    ∃ k k', scanQuote m = .token k .string ∧ scanQuote t = .token k' .string ∧
      Thins L.offset false (o + 1 + byteLength (m.take k)) (o' + 1 + byteLength (t.take k'))
        (m.drop k) (t.drop k') ∧
      L.value (stringValue (String.ofList ('"' :: m.take k)))
        (stringValue (String.ofList ('"' :: t.take k')))

/-- A text and one with less white space are gone through in step. -/
theorem Comparable.lockstep {L : Likeness} {P Q : Lexeme → Prop} (h : Comparable L P Q) :
    Lockstep L P Q (fun o o' m t => ∃ fresh, Thins L.offset fresh o o' m t)
      (Thins L.offset false) where
  faultless := h.faultless
  nil := fun ⟨_, h⟩ => h.left_nil
  space := fun ⟨_, h⟩ _ => h.dropSpace
  first := fun hc ⟨_, h⟩ => h.of_cons_left hc
  behind := fun h => ⟨false, h⟩
  comment := Thins.dropComment
  word := Thins.word
  string := h.string

theorem Comparable.alike {L : Likeness} {P Q : Lexeme → Prop} (hcompare : Comparable L P Q)
    {text thin : String} {fresh : Bool} (h : Thins L.offset fresh 0 0 text.toList thin.toList)
    (hP : ∀ l ∈ lexemes text, P l) (hQ : ∀ l ∈ lexemes thin, Q l) :
    Alike L (lexemes text) (lexemes thin) :=
  hcompare.lockstep.alike ⟨fresh, h⟩ hP hQ

/-- A text that is read without a fault is still read without one after it lost
white space, and it is read to the same definitions. -/
theorem read_of_thins {L : Likeness} (hvalue : ∀ v w, L.value v w) {text thin : String}
    {fresh : Bool} (h : Thins L.offset fresh 0 0 text.toList thin.toList)
    (hending : L.offset text.utf8ByteSize thin.utf8ByteSize) (hf : (read text).faults = []) :
    (read thin).faults = [] ∧
      List.Forall₂ L.Definitions (read text).definitions (read thin).definitions := by
  have hcompare : Comparable L (fun l => ∀ f, l.kind ≠ .fault f) fun _ => True := by
    refine ⟨.inl fun _ h => h, fun here hrest hfault _ => ?_⟩
    obtain ⟨k, k', hm, ht, hmatch⟩ := scanQuote_thins hrest (not_exists.mpr hfault)
    exact ⟨k, k', hm, ht, hmatch, hvalue _ _⟩
  have hlexical := ((read_faults_eq_nil_iff text).mp hf).1
  refine read_of_alike (hcompare.alike h ?_ fun _ _ => trivial) hending hf
  exact lexicalFaults_eq_nil_iff.mp hlexical

end SchemaLint.Sdl
