import SchemaLint.Proofs.Sdl.Thinning
import SchemaLint.Text.Blank

/-!
# Texts with more white space

The way back from a text to one with more white space in it, at the start of lines,
before line feeds and at the end. What is read without a fault is still read without
one, but for a quoted string that has a line feed right behind its opening quote: only
there may a line break stand, so any further break that comes in breaks the string. Two
conditions keep strings whole: that no string of the longer text is found broken, or
that nothing is put in behind such a quote.
-/

namespace SchemaLint.Sdl

open Text

/-! ## The other direction of a likeness -/

namespace Likeness

/-- The likeness seen from the other side. -/
def flip (L : Likeness) : Likeness := ⟨fun v w => L.value w v, fun o o' => L.offset o' o⟩

theorem Tokens.flip {L : Likeness} {t u : Token} (h : L.Tokens t u) : L.flip.Tokens u t where
  kind := h.kind.symm
  text hk := (h.text (h.kind ▸ hk)).symm
  quoted hk := (h.quoted (h.kind ▸ hk)).symm
  value hk := h.value (h.kind ▸ hk)
  comma := h.comma.symm
  offset := h.offset

end Likeness

theorem Alike.flip {L : Likeness} {ls ls' : List Lexeme} (h : Alike L ls ls') :
    Alike L.flip ls' ls := by
  induction h with
  | nil => exact .nil
  | left hk hne _ ih => exact .right hk hne ih
  | right hk hne _ ih => exact .left hk hne ih
  | comma hk hk' _ ih => exact .comma hk' hk ih
  | token hk hk' ht _ ih => exact .token hk' hk ht.flip ih

/-- A fault in neither text, once there is none in the second. -/
theorem read_of_alike_right {L : Likeness} {text thin : String}
    (halike : Alike L (lexemes text) (lexemes thin))
    (hending : L.offset text.utf8ByteSize thin.utf8ByteSize) (hf : (read thin).faults = []) :
    (read text).faults = [] ∧
      List.Forall₂ L.Definitions (read text).definitions (read thin).definitions := by
  have htext := (read_of_alike halike.flip hending hf).1
  exact ⟨htext, (read_of_alike halike hending htext).2⟩

/-! ## What is put in at the front -/

section Front

variable {R : Nat → Nat → Prop} {fresh : Bool} {o o' : Nat} {m t : List Char}

/-- What is put in before the next character of a text. -/
theorem Thins.front {c : Char} (h : Thins R fresh o o' m (c :: t)) :
    ∃ w m', m = w ++ c :: m' ∧ (∀ d ∈ w, IsFill d) ∧ R (o + byteLength w) o' ∧
      Thins R (c == '\n') (o + byteLength w + c.utf8Size) (o' + c.utf8Size) m' t := by
  generalize ht : c :: t = t' at h
  induction h with
  | nil => cases ht
  | @keep fresh o o' m t' d here rest =>
    obtain ⟨rfl, rfl⟩ := List.cons.inj ht
    exact ⟨[], m, rfl, by simp, here, rest⟩
  | drop d hd free rest ih =>
    obtain ⟨w, m', rfl, hw, here, hrest⟩ := ih ht
    refine ⟨d :: w, m', rfl, List.forall_mem_cons.mpr ⟨hd, hw⟩, ?_, ?_⟩
    · rwa [byteLength_cons, ← Nat.add_assoc]
    · rwa [byteLength_cons, ← Nat.add_assoc]

theorem scanBlockString_fill {w : List Char} (hw : ∀ c ∈ w, IsFill c) (n : Nat) (m : List Char) :
    scanBlockString n (w ++ m) = scanBlockString (n + w.length) m := by
  induction w generalizing n with
  | nil => rfl
  | cons c w ih =>
    obtain ⟨hc, hw⟩ := List.forall_mem_cons.mp hw
    have hstep : scanBlockString n (c :: (w ++ m)) = scanBlockString (n + 1) (w ++ m) := by
      rcases space_cases hc.1 with rfl | rfl | rfl | rfl | rfl <;> rfl
    rw [List.cons_append, hstep, ih hw, List.length_cons, Nat.add_assoc, Nat.add_comm 1]

end Front

/-! ## Strings that stay whole -/

section Whole

variable {R : Nat → Nat → Prop} {fresh : Bool} {o o' : Nat} {m t : List Char}

/-- A quote is never put in. -/
theorem Thins.quote_free (h : Thins R fresh o o' m t) (ht : ∀ t', t = '"' :: t' → False)
    (m' : List Char) : m = '"' :: m' → False := by
  rintro rfl
  obtain ⟨t', rfl, -⟩ := h.of_cons_left (by decide)
  exact ht t' rfl

/-- White space in a block string does not keep it from closing. -/
theorem not_isFault_scanBlockString {n : Nat} (h : Thins R fresh o o' m t)
    (ht : ¬ (scanBlockString n t).IsFault) (n' : Nat) : ¬ (scanBlockString n' m).IsFault := by
  fun_induction scanBlockString n t generalizing fresh o o' m n' with
  | case1 n cs =>
    obtain ⟨w, m₁, rfl, hw, -, h₁⟩ := h.front
    obtain ⟨m₂, rfl, h₂⟩ := Thins.of_cons_right (by decide) h₁
    obtain ⟨m₃, rfl, -⟩ := h₂.of_cons_right (by decide)
    rw [scanBlockString_fill hw]
    exact not_isFault_token _ _
  | case2 n cs ih =>
    obtain ⟨w, m₁, rfl, hw, -, h₁⟩ := h.front
    obtain ⟨m₂, rfl, h₂⟩ := Thins.of_cons_right (by decide) h₁
    obtain ⟨m₃, rfl, h₃⟩ := h₂.of_cons_right (by decide)
    obtain ⟨m₄, rfl, h₄⟩ := h₃.of_cons_right (by decide)
    rw [scanBlockString_fill hw]
    exact ih h₄ ht _
  | case3 n cs hcs ih =>
    obtain ⟨w, m₁, rfl, hw, -, h₁⟩ := h.front
    obtain ⟨m₂, rfl, h₂⟩ := Thins.of_cons_right (by decide) h₁
    obtain ⟨m₃, rfl, h₃⟩ := h₂.of_cons_right (by decide)
    rw [scanBlockString_fill hw, scanBlockString.eq_3 _ m₃ (h₃.quote_free hcs)]
    exact ih h₃ ht _
  | case4 n cs hcs hcs' ih =>
    obtain ⟨w, m₁, rfl, hw, -, h₁⟩ := h.front
    obtain ⟨m₂, rfl, h₂⟩ := Thins.of_cons_right (by decide) h₁
    have hquote := h₂.quote_free hcs'
    rw [scanBlockString_fill hw, scanBlockString.eq_4 _ m₂ (fun _ => hquote _) hquote]
    exact ih h₂ ht _
  | case5 n c cs hquotes htwo hone hescape ih =>
    obtain ⟨w, m₁, rfl, hw, -, h₁⟩ := h.front
    have hescape' : ∀ m', c = '\\' → m₁ = '"' :: m' → False := fun m' hc =>
      h₁.quote_free (fun cs' => hescape cs' hc) m'
    have hquotes' : ∀ m', c = '"' → m₁ = '"' :: '"' :: m' → False := by
      rintro m' hc rfl
      obtain ⟨cs₂, rfl, -, h₂⟩ := h₁.of_cons_left (by decide)
      exact h₂.quote_free (fun cs' hcs => hquotes cs' hc (by rw [hcs])) m' rfl
    rw [scanBlockString_fill hw, scanBlockString.eq_5 _ c m₁ hquotes' (fun _ => hescape' _)
      (fun _ => hescape' _) hescape']
    exact ih h₁ ht _
  | case6 n => exact absurd (isFault_fault _ _) ht

theorem isFault_scanString_lineFeed (mode : StringMode) (noted : Option LexicalFault) (n : Nat)
    (cs : List Char) : (scanString mode noted n ('\n' :: cs)).IsFault := by
  rw [scanString]
  exact isFault_scanString_of_isSome (isSome_stepString_lineFeed mode noted) _ _ _

/-- A quoted string is left as it is once its second line has begun. -/
theorem scanString_of_thins {mode : StringMode} {noted : Option LexicalFault} {n : Nat}
    (h : Thins R false o o' m t) (ht : ¬ (scanString mode noted n t).IsFault) :
    ∃ k, (∀ n, scanString mode noted n m = .token (n + k) .string) ∧
      (∀ n, scanString mode noted n t = .token (n + k) .string) ∧ m.take k = t.take k ∧
      Thins R false (o + byteLength (m.take k)) (o' + byteLength (t.take k)) (m.drop k)
        (t.drop k) := by
  induction t generalizing mode noted n o o' m with
  | nil => exact absurd (isFault_fault _ _) ht
  | cons c t ih =>
    have hne : c ≠ '\n' := by
      rintro rfl
      exact ht (isFault_scanString_lineFeed mode noted n t)
    obtain ⟨m, rfl, hrest⟩ := h.of_cons_right hne
    by_cases hstep : c = '"' → closeString? mode noted = none
    · rw [scanString_step hstep] at ht
      obtain ⟨k, hm, ht, htake, hrest⟩ := ih hrest ht
      refine ⟨k + 1, fun n => ?_, fun n => ?_, congrArg (c :: ·) htake, ?_⟩
      · rw [scanString_step hstep, hm, Nat.add_assoc, Nat.add_comm 1]
      · rw [scanString_step hstep, ht, Nat.add_assoc, Nat.add_comm 1]
      · rwa [Nat.add_assoc, Nat.add_assoc] at hrest
    · obtain ⟨rfl, hclose⟩ := not_forall.mp hstep
      obtain ⟨noted', hnoted⟩ := Option.ne_none_iff_exists'.mp hclose
      cases noted' with
      | none => exact ⟨1, (scanString_close hnoted · m), (scanString_close hnoted · t), rfl, hrest⟩
      | some f =>
        rw [scanString_close hnoted] at ht
        exact absurd (isFault_fault _ _) ht

/-- A string is read as it was, from its second character on. -/
theorem scanQuote_of_line {c : Char} {mode : StringMode}
    (h : Thins R false (o + c.utf8Size) (o' + c.utf8Size) m t)
    (hquote : ∀ cs ∈ [m, t], scanQuote (c :: cs) = scanString mode none 1 cs)
    (ht : ¬ (scanString mode none 1 t).IsFault) :
    ∃ k, scanQuote (c :: m) = .token k .string ∧ scanQuote (c :: t) = .token k .string ∧
      Thins R false (o + byteLength ((c :: m).take k)) (o' + byteLength ((c :: t).take k))
        ((c :: m).drop k) ((c :: t).drop k) ∧ (c :: m).take k = (c :: t).take k := by
  obtain ⟨k, hm, ht, htake, hrest⟩ := scanString_of_thins h ht
  refine ⟨k + 1, ?_, ?_, ?_, congrArg (c :: ·) htake⟩
  · rw [hquote m (by simp), hm, Nat.add_comm]
  · rw [hquote t (by simp), ht, Nat.add_comm]
  · rwa [Nat.add_assoc o, Nat.add_assoc o'] at hrest

end Whole

/-! ## Strings that are not broken -/

section Unbroken

variable {R : Nat → Nat → Prop} {fresh : Bool} {o o' : Nat} {m t : List Char}

/-- No fault is noted in a string but a line break. -/
def OnlyBreaks (noted : Option LexicalFault) : Prop :=
  noted = none ∨ noted = some .lineBreakInString

theorem stepString_noted {mode : StringMode} {c : Char} (h : (stepString mode none c).2 = none)
    (f : LexicalFault) : stepString mode (some f) c = ((stepString mode none c).1, some f) := by
  cases Notes.stepString mode c with
  | leaves mode' hstep => rw [hstep, hstep]
  | sets mode' f' hstep =>
    rw [hstep] at h
    cases h

/-- A fault noted before a string that is sound is the one that counts. -/
theorem kind_scanString_noted {mode : StringMode} {n : Nat} {cs : List Char}
    (hs : ¬ (scanString mode none n cs).IsFault) (f : LexicalFault) (n' : Nat) :
    (scanString mode (some f) n' cs).kind = .fault f := by
  induction cs generalizing mode n n' with
  | nil => exact absurd (isFault_fault _ _) hs
  | cons c cs ih =>
    by_cases hstep : c = '"' → closeString? mode none = none
    · have hstep' : c = '"' → closeString? mode (some f) = none := by
        intro hc
        have hclose := hstep hc
        cases mode <;> first | rfl | cases hclose
      rw [scanString_step hstep] at hs
      have hnone : (stepString mode none c).2 = none := by
        cases hnoted : (stepString mode none c).2 with
        | none => rfl
        | some f => exact absurd (isFault_scanString_of_isSome (by rw [hnoted]; rfl) _ _ _) hs
      rw [hnone] at hs
      rw [scanString_step hstep', stepString_noted hnone]
      exact ih hs _
    · obtain ⟨rfl, hclose⟩ := not_forall.mp hstep
      obtain ⟨noted, hnoted⟩ := Option.ne_none_iff_exists'.mp hclose
      rw [scanString_close hnoted] at hs
      cases mode with
      | body => rfl
      | escape | afterLeadEscape => cases hnoted
      | unicode | fixed | braced | afterLead =>
        obtain rfl := Option.some.inj hnoted
        exact absurd (isFault_fault _ _) hs

/-- Plain text in a string lets no fault be noted but a line break. -/
theorem scanString_plain {w : List Char} (hw : ∀ c ∈ w, c ≠ '"' ∧ c ≠ '\\')
    {noted : Option LexicalFault} (hnoted : OnlyBreaks noted) :
    ∃ noted', OnlyBreaks noted' ∧ ∀ n cs,
      scanString .body noted n (w ++ cs) = scanString .body noted' (n + w.length) cs := by
  induction w generalizing noted with
  | nil => exact ⟨noted, hnoted, fun _ _ => rfl⟩
  | cons c w ih =>
    obtain ⟨⟨hquote, hescape⟩, hw⟩ := List.forall_mem_cons.mp hw
    have hstep : ∃ noted', OnlyBreaks noted' ∧ stepString .body noted c = (.body, noted') := by
      rw [stepString, stepBody, if_neg (by simpa using hescape)]
      split
      · exact ⟨_, .inr rfl, rfl⟩
      · exact ⟨_, hnoted, rfl⟩
    obtain ⟨noted₁, hnoted₁, hstep⟩ := hstep
    obtain ⟨noted', hnoted', hscan⟩ := ih hw hnoted₁
    refine ⟨noted', hnoted', fun n cs => ?_⟩
    rw [List.cons_append, scanString_step (fun h => absurd h hquote), hstep, hscan,
      List.length_cons, Nat.add_assoc, Nat.add_comm 1]

theorem IsFill.plain {c : Char} (h : IsFill c) : c ≠ '"' ∧ c ≠ '\\' := by
  rcases space_cases h.1 with rfl | rfl | rfl | rfl | rfl <;> decide

/-- What stands first behind the quote is not looked at. -/
theorem scanQuote_fill {w : List Char} (hw : ∀ c ∈ w, IsFill c) :
    ∃ noted, OnlyBreaks noted ∧ ∀ cs, scanQuote (w ++ ['\n'] ++ cs) =
      scanString .body noted (w ++ ['\n']).length cs := by
  have hplain : ∀ c ∈ w ++ ['\n'], c ≠ '"' ∧ c ≠ '\\' := by
    intro c hc
    rw [List.mem_append, List.mem_singleton] at hc
    obtain hc | rfl := hc
    · exact (hw c hc).plain
    · decide
  obtain ⟨c, v, hv⟩ : ∃ c v, w ++ ['\n'] = c :: v := List.exists_cons_of_ne_nil (by simp)
  rw [hv] at hplain ⊢
  obtain ⟨⟨hquote, hescape⟩, hplain⟩ := List.forall_mem_cons.mp hplain
  obtain ⟨noted, hnoted, hscan⟩ := scanString_plain hplain (.inl rfl)
  refine ⟨noted, hnoted, fun cs => ?_⟩
  rw [List.cons_append, scanQuote.eq_5 c _ (fun _ hc _ => hquote hc) hquote hescape, hscan,
    List.length_cons, Nat.add_comm]

/-- White space in front of the second line of a string can only break the line. -/
theorem kind_scanString_of_thins {n n' : Nat} (h : Thins R fresh o o' m t)
    (ht : ¬ (scanString .body none n t).IsFault) {noted : Option LexicalFault}
    (hnoted : OnlyBreaks noted) (hs : (scanString .body noted n' m).IsFault) :
    (scanString .body noted n' m).kind = .fault .lineBreakInString := by
  cases t with
  | nil => exact absurd (isFault_fault _ _) ht
  | cons c t =>
    obtain ⟨w, m', rfl, hw, here, hrest⟩ := h.front
    obtain ⟨noted', hnoted', hscan⟩ := scanString_plain (fun c hc => (hw c hc).plain) hnoted
    have hline : Thins R false (o + byteLength w) o' (c :: m') (c :: t) := .keep c here hrest
    obtain ⟨k, hm, -⟩ := scanString_of_thins hline ht
    have hsound : ¬ (scanString .body none 0 (c :: m')).IsFault := by
      rw [hm]
      exact not_isFault_token _ _
    rw [hscan] at hs ⊢
    obtain rfl | rfl := hnoted'
    · rw [hm] at hs
      exact absurd hs (not_isFault_token _ _)
    · exact kind_scanString_noted hsound _ _

theorem le_more_scanString (mode : StringMode) (noted : Option LexicalFault) (n : Nat)
    (cs : List Char) : n ≤ (scanString mode noted n cs).more := by
  induction cs generalizing mode noted n with
  | nil => exact Nat.le_refl n
  | cons c cs ih =>
    rw [scanString]
    split
    · split
      · exact Nat.le_succ n
      · exact Nat.le_succ n
      · exact Nat.le_of_succ_le (ih _ _ _)
    · exact Nat.le_of_succ_le (ih _ _ _)

/-- A string at fault that loses the fault with white space is broken, and opens with
white space up to a line feed. -/
theorem scanQuote_broken (h : Thins R false o o' m t) (ht : ¬ (scanQuote t).IsFault)
    (hs : (scanQuote m).IsFault) :
    (scanQuote m).kind = .fault .lineBreakInString ∧
      ∃ w, w ++ ['\n'] <+: m.take (scanQuote m).more ∧ ∀ c ∈ w, IsFill c := by
  fun_cases scanQuote t with
  | case1 => exact absurd (isFault_fault _ _) ht
  | case2 cs =>
    obtain ⟨m₁, rfl, h₁⟩ := h.of_cons_right (by decide)
    obtain ⟨m₂, rfl, h₂⟩ := h₁.of_cons_right (by decide)
    exact absurd hs (not_isFault_scanBlockString h₂ ht 2)
  | case3 cs hcs =>
    obtain ⟨m₁, rfl, h₁⟩ := h.of_cons_right (by decide)
    rw [scanQuote.eq_3 m₁ (h₁.quote_free hcs)] at hs
    exact absurd hs (not_isFault_token _ _)
  | case4 cs =>
    obtain ⟨m₁, rfl, h₁⟩ := h.of_cons_right (by decide)
    obtain ⟨k, hm, -⟩ := scanQuote_of_line h₁ (fun _ _ => rfl) ht
    rw [hm] at hs
    exact absurd hs (not_isFault_token _ _)
  | case5 c cs htwo hone hescape =>
    have hquote : ∀ cs, scanQuote (c :: cs) = scanString .body none 1 cs :=
      fun cs => scanQuote.eq_5 c cs (fun _ hc _ => hone hc) hone hescape
    rw [hquote] at ht
    by_cases hc : c = '\n'
    · subst hc
      obtain ⟨w, m₁, rfl, hw, -, h₁⟩ := h.front
      obtain ⟨noted, hnoted, hscan⟩ := scanQuote_fill hw
      rw [List.append_cons, hscan] at hs ⊢
      have hmore := le_more_scanString .body noted (w ++ ['\n']).length m₁
      refine ⟨kind_scanString_of_thins h₁ ht hnoted hs, w, ?_, hw⟩
      exact List.prefix_take_iff.mpr ⟨List.prefix_append _ _, hmore⟩
    · obtain ⟨m₁, rfl, h₁⟩ := h.of_cons_right hc
      obtain ⟨k, hm, -⟩ := scanQuote_of_line h₁ (fun cs _ => hquote cs) ht
      rw [hm] at hs
      exact absurd hs (not_isFault_token _ _)

/-- A quoted string that a line break breaks, with nothing but white space from its quote
to a line feed. -/
def Lexeme.OpensBroken (l : Lexeme) : Prop :=
  l.kind = .fault .lineBreakInString ∧ '\n' ∈ l.text.toList.tail.takeWhile isSpace

instance Lexeme.decidableOpensBroken (l : Lexeme) : Decidable l.OpensBroken :=
  inferInstanceAs (Decidable (_ ∧ _))

theorem opensBroken_firstLexeme (h : Thins R false o o' m t) (ht : ¬ (scanQuote t).IsFault)
    (hs : (scanQuote m).IsFault) (p : Nat) : (firstLexeme p '"' m).OpensBroken := by
  obtain ⟨hkind, w, ⟨rest, hrest⟩, hw⟩ := scanQuote_broken h ht hs
  have hspace : ∀ c ∈ w ++ ['\n'], isSpace c = true := by
    intro c hc
    rw [List.mem_append, List.mem_singleton] at hc
    obtain hc | rfl := hc
    · exact (hw c hc).1
    · decide
  have htail : (firstLexeme p '"' m).text.toList.tail = w ++ ['\n'] ++ rest := by
    rw [hrest, firstLexeme, String.toList_ofList]
    rfl
  refine ⟨hkind, ?_⟩
  rw [htail, List.takeWhile_append_of_pos hspace]
  simp

/-- A text that is read without a fault once it lost white space had none but for strings
that open broken. -/
theorem read_of_thins_unbroken {L : Likeness} (hvalue : ∀ v w, L.value v w)
    {text thin : String} (h : Thins L.offset fresh 0 0 text.toList thin.toList)
    (hending : L.offset text.utf8ByteSize thin.utf8ByteSize)
    (hwhole : ∀ l ∈ lexemes text, ¬ l.OpensBroken) (hf : (read thin).faults = []) :
    (read text).faults = [] := by
  have hcompare : Comparable L (fun l => ¬ l.OpensBroken) fun l => ∀ f, l.kind ≠ .fault f := by
    refine ⟨.inr fun _ h => h, fun here hrest hbreak hsound => ?_⟩
    have ht : ¬ (scanQuote _).IsFault := not_exists.mpr hsound
    obtain ⟨k, k', hm, ht, hmatch⟩ :=
      scanQuote_thins hrest fun hs => hbreak (opensBroken_firstLexeme hrest ht hs _)
    exact ⟨k, k', hm, ht, hmatch, hvalue _ _⟩
  have hlexical := ((read_faults_eq_nil_iff thin).mp hf).1
  have halike := hcompare.alike h hwhole (lexicalFaults_eq_nil_iff.mp hlexical)
  exact (read_of_alike_right halike hending hf).1

end Unbroken

/-! ## Strings that nothing is put in -/

section Rigid

variable {R : Nat → Nat → Prop} {fresh : Bool} {o o' : Nat} {m t : List Char}

/-- Nothing is put in right behind the character at a position, nor behind the next. -/
def Rigid (R : Nat → Nat → Prop) (o' : Nat) : Prop :=
  ∀ o p, R o o' → (R p (o' + 1) → p = o + 1) ∧ (R p (o' + 2) → p = o + 2)

/-- What is left of a text without its blanks. -/
def ink (cs : List Char) : List Char := cs.filter (!isBlank ·)

@[simp] theorem ink_nil : ink [] = [] := rfl

theorem ink_append (a b : List Char) : ink (a ++ b) = ink a ++ ink b :=
  List.filter_append a b

/-- Strings are the same, or block strings that differ in blanks. -/
def SameString (a b : List Char) : Prop :=
  a = b ∨ ∃ inside inside', a = ['"', '"', '"'] ++ inside ++ ['"', '"', '"'] ∧
    b = ['"', '"', '"'] ++ inside' ++ ['"', '"', '"'] ∧ ink inside = ink inside'

theorem isBlank_of_isFill {c : Char} (h : IsFill c) : isBlank c = true := by
  obtain ⟨hspace, hmark⟩ := h
  rcases space_cases hspace with rfl | rfl | rfl | rfl | rfl
  all_goals first | rfl | exact absurd rfl hmark

theorem Thins.ink_eq (h : Thins R fresh o o' m t) : ink m = ink t := by
  induction h with
  | nil => rfl
  | keep c _ _ ih => rw [ink, ink, List.filter_cons, List.filter_cons, ← ink, ← ink, ih]
  | drop c hc _ _ ih =>
    rw [ink, List.filter_cons_of_neg (by simp [isBlank_of_isFill hc])]
    exact ih

/-- A block string ends in three quotes. -/
theorem take_scanBlockString {n m : Nat} {cs : List Char}
    (h : scanBlockString n cs = .token m .string) :
    n ≤ m ∧ ∃ inside, cs.take (m - n) = inside ++ ['"', '"', '"'] := by
  have step : ∀ (p : List Char) {n : Nat} {cs : List Char},
      (n + p.length ≤ m ∧ ∃ inside, cs.take (m - (n + p.length)) = inside ++ ['"', '"', '"']) →
      n ≤ m ∧ ∃ inside, (p ++ cs).take (m - n) = inside ++ ['"', '"', '"'] := by
    rintro p n cs ⟨hle, inside, htake⟩
    refine ⟨by omega, p ++ inside, ?_⟩
    rw [show m - n = p.length + (m - (n + p.length)) by omega, List.take_length_add_append, htake,
      List.append_assoc]
  fun_induction scanBlockString n cs with
  | case1 n cs =>
    cases h
    exact ⟨Nat.le_add_right n 3, [], by simp⟩
  | case2 n cs ih => exact step ['\\', '"', '"', '"'] (ih h)
  | case3 n cs _ ih => exact step ['\\', '"', '"'] (ih h)
  | case4 n cs _ _ ih => exact step ['\\', '"'] (ih h)
  | case5 n c cs _ _ _ _ ih => exact step [c] (ih h)
  | case6 n => cases h

theorem eq_nil_of_byteLength {w : List Char} (h : byteLength w = 0) : w = [] := by
  cases w with
  | nil => rfl
  | cons c w =>
    have := c.utf8Size_pos
    rw [byteLength_cons] at h
    omega

/-- The front of a text at a place where nothing is put in. -/
theorem Thins.front_of_rigid {c : Char} (h : Thins R fresh o o' m (c :: t))
    (hrigid : ∀ p, R p o' → p = o) :
    ∃ m', m = c :: m' ∧ R o o' ∧
      Thins R (c == '\n') (o + c.utf8Size) (o' + c.utf8Size) m' t := by
  obtain ⟨w, m', rfl, -, here, hrest⟩ := h.front
  have hw := hrigid _ here
  obtain rfl : w = [] := eq_nil_of_byteLength (by omega)
  exact ⟨m', rfl, here, hrest⟩

/-- A string that has a line feed first stays as it is where nothing is put in. -/
theorem scanQuote_rigid_lineFeed (hrigid : Rigid R o') (here : R o o')
    (h : Thins R false (o + 1) (o' + 1) m ('\n' :: t))
    (ht : ¬ (scanString .body none 1 t).IsFault) :
    ∃ m', m = '\n' :: m' ∧ Thins R false (o + 2) (o' + 2) m' t := by
  obtain ⟨m', rfl, -, hrest⟩ := h.front_of_rigid fun p => (hrigid o p here).1
  cases t with
  | nil => exact absurd (isFault_fault _ _) ht
  | cons c t =>
    obtain ⟨m', rfl, here, hrest⟩ := hrest.front_of_rigid fun p => (hrigid o p here).2
    exact ⟨c :: m', rfl, .keep c here hrest⟩

theorem scanQuote_rigid (hrigid : t.head? = some '\n' → Rigid R o') (here : R o o')
    (h : Thins R false (o + 1) (o' + 1) m t) (ht : ¬ (scanQuote t).IsFault) :
    ∃ k k', scanQuote m = .token k .string ∧ scanQuote t = .token k' .string ∧
      Thins R false (o + 1 + byteLength (m.take k)) (o' + 1 + byteLength (t.take k'))
        (m.drop k) (t.drop k') ∧ SameString ('"' :: m.take k) ('"' :: t.take k') := by
  fun_cases scanQuote t with
  | case1 => exact absurd (isFault_fault _ _) ht
  | case2 cs =>
    obtain ⟨m₁, rfl, h₁⟩ := h.of_cons_right (by decide)
    obtain ⟨m₂, rfl, h₂⟩ := h₁.of_cons_right (by decide)
    obtain ⟨k, k', hm, ht, hrest⟩ :=
      closes_scanBlockString h₂ (not_isFault_scanBlockString h₂ ht 2)
    have hink : ink (m₂.take k) = ink (cs.take k') := by
      have hwhole := h₂.ink_eq
      rw [← List.take_append_drop k m₂, ← List.take_append_drop k' cs, ink_append, ink_append,
        hrest.ink_eq] at hwhole
      exact List.append_cancel_right hwhole
    obtain ⟨-, inside, hinside⟩ := take_scanBlockString (hm 2)
    obtain ⟨-, inside', hinside'⟩ := take_scanBlockString (ht 2)
    rw [Nat.add_sub_cancel_left] at hinside hinside'
    rw [hinside, hinside', ink_append, ink_append] at hink
    refine ⟨k + 2, k' + 2, ?_, ?_, ?_, .inr ⟨inside, inside', ?_, ?_, ?_⟩⟩
    · exact (hm 2).trans (by rw [Nat.add_comm])
    · exact (ht 2).trans (by rw [Nat.add_comm])
    · have hquotes : ∀ p cs,
          p + 1 + byteLength ('"' :: '"' :: cs) = p + 1 + 1 + 1 + byteLength cs := by
        intro p cs
        simp only [byteLength_cons, Nat.add_assoc]
        rfl
      rw [List.take_succ_cons, List.take_succ_cons, List.take_succ_cons, List.take_succ_cons,
        hquotes, hquotes]
      exact hrest
    · exact congrArg (['"', '"', '"'] ++ ·) hinside
    · exact congrArg (['"', '"', '"'] ++ ·) hinside'
    · exact List.append_cancel_right hink
  | case3 cs hcs =>
    obtain ⟨m₁, rfl, h₁⟩ := h.of_cons_right (by decide)
    exact ⟨1, 1, scanQuote.eq_3 m₁ (h₁.quote_free hcs), rfl, h₁, .inl rfl⟩
  | case4 cs =>
    obtain ⟨m₁, rfl, h₁⟩ := h.of_cons_right (by decide)
    obtain ⟨k, hm, ht, hrest, htake⟩ := scanQuote_of_line h₁ (fun _ _ => rfl) ht
    exact ⟨k, k, hm, ht, hrest, .inl (by rw [htake])⟩
  | case5 c cs htwo hone hescape =>
    have hquote : ∀ cs, scanQuote (c :: cs) = scanString .body none 1 cs :=
      fun cs => scanQuote.eq_5 c cs (fun _ hc _ => hone hc) hone hescape
    rw [hquote] at ht
    have hnext : ∃ m', m = c :: m' ∧ Thins R false (o + 1 + c.utf8Size) (o' + 1 + c.utf8Size)
        m' cs := by
      by_cases hc : c = '\n'
      · subst hc
        exact scanQuote_rigid_lineFeed (hrigid rfl) here h ht
      · exact h.of_cons_right hc
    obtain ⟨m₁, rfl, h₁⟩ := hnext
    obtain ⟨k, hm, ht, hrest, htake⟩ := scanQuote_of_line h₁ (fun cs _ => hquote cs) ht
    rw [hquote] at ht
    exact ⟨k, k, hm, ht, hrest, .inl (by rw [htake])⟩

/-- A text that is read without a fault is read to the same definitions after white space
came in, none of it behind the quote of a string with a line feed first. -/
theorem read_of_thins_rigid {L : Likeness}
    (hvalue : ∀ a b, SameString a b →
      L.value (stringValue (String.ofList a)) (stringValue (String.ofList b)))
    {text thin : String} (h : Thins L.offset fresh 0 0 text.toList thin.toList)
    (hending : L.offset text.utf8ByteSize thin.utf8ByteSize)
    (hrigid : ∀ l ∈ lexemes thin, ['"', '\n'] <+: l.text.toList → Rigid L.offset l.offset)
    (hf : (read thin).faults = []) :
    (read text).faults = [] ∧
      List.Forall₂ L.Definitions (read text).definitions (read thin).definitions := by
  have hcompare : Comparable L (fun _ => True) fun l => (∀ f, l.kind ≠ .fault f) ∧
      (['"', '\n'] <+: l.text.toList → Rigid L.offset l.offset) := by
    refine ⟨.inr fun _ h => h.1, fun {o o' m t} here hrest _ ⟨hsound, hrigid⟩ => ?_⟩
    have hfirst : t.head? = some '\n' → Rigid L.offset o' := by
      intro hhead
      obtain ⟨t, rfl⟩ := List.head?_eq_some_iff.mp hhead
      refine hrigid ?_
      have hmore : 1 ≤ (scan '"' ('\n' :: t)).more := le_more_scanString .body none 1 t
      obtain ⟨k, hk⟩ := Nat.exists_eq_add_of_le' hmore
      refine ⟨t.take k, ?_⟩
      rw [firstLexeme, hk, String.toList_ofList]
      rfl
    obtain ⟨k, k', hm, ht, hmatch, hsame⟩ :=
      scanQuote_rigid hfirst here hrest (not_exists.mpr hsound)
    exact ⟨k, k', hm, ht, hmatch, hvalue _ _ hsame⟩
  have hlexical := lexicalFaults_eq_nil_iff.mp ((read_faults_eq_nil_iff thin).mp hf).1
  refine read_of_alike_right (hcompare.alike h (fun _ _ => trivial) ?_) hending hf
  exact fun l hl => ⟨hlexical l hl, hrigid l hl⟩

end Rigid

end SchemaLint.Sdl
