import SchemaLint.Proofs.Sdl.Thickening

/-!
# Where a string ends

A string that is closed is known from its own text, whatever comes behind it. Text of a
block string that does not close it is passed over, as long as no quote follows. So a
block string can be gone through line by line.
-/

namespace SchemaLint.Sdl

open Text

/-! ## Block strings -/

/-- A text behind the three quotes of a block string closes it at its end and not before,
whatever comes behind. -/
def ClosesBlock (body : List Char) : Prop :=
  ∀ n rest, scanBlockString n (body ++ rest) = .token (n + body.length) .string

/-- A text within a block string that is passed over, unless a quote comes behind. -/
def PassesBlock (body : List Char) : Prop :=
  ∀ n rest, rest.head? ≠ some '"' →
    scanBlockString n (body ++ rest) = scanBlockString (n + body.length) rest

theorem ClosesBlock.eq_append {body : List Char} (h : ClosesBlock body) :
    ∃ inside, body = inside ++ ['"', '"', '"'] := by
  have hscan := h 0 []
  rw [List.append_nil] at hscan
  obtain ⟨-, inside, hinside⟩ := take_scanBlockString hscan
  rw [Nat.sub_zero, Nat.zero_add, List.take_length] at hinside
  exact ⟨inside, hinside⟩

/-- A text has no more quotes in front than another one, counting two at most. -/
structure FewerQuotes (u v : List Char) : Prop where
  one : ∀ t, u = '"' :: t → ∃ t', v = '"' :: t'
  two : ∀ t, u = '"' :: '"' :: t → ∃ t', v = '"' :: '"' :: t'

theorem ClosesBlock.fewerQuotes {body : List Char} (h : ClosesBlock body)
    (rest rest' : List Char) : FewerQuotes (body ++ rest) (body ++ rest') := by
  obtain ⟨inside, rfl⟩ := h.eq_append
  obtain _ | ⟨c, _ | ⟨d, inside⟩⟩ := inside
  all_goals
    constructor
    · rintro _ ⟨rfl⟩
      exact ⟨_, rfl⟩
    · rintro _ ⟨rfl⟩
      exact ⟨_, rfl⟩

theorem fewerQuotes_append (cs : List Char) {rest : List Char} (h : rest.head? ≠ some '"') :
    FewerQuotes (cs ++ rest) cs := by
  obtain _ | ⟨c, _ | ⟨d, cs⟩⟩ := cs
  all_goals
    constructor
    · rintro _ ⟨rfl⟩
      first | exact ⟨_, rfl⟩ | exact absurd rfl h
    · rintro _ ⟨rfl⟩
      first | exact ⟨_, rfl⟩ | exact absurd rfl h

/-- Characters that are read in one go, as long as no more quotes follow than do here, put
in front of a text that closes a block string or is passed over. -/
theorem closesBlock_or_passesBlock_step (p : List Char) {cs : List Char}
    (hp : ∀ n u, FewerQuotes u cs → scanBlockString n (p ++ u) = scanBlockString (n + p.length) u)
    (h : (∃ body rest, cs = body ++ rest ∧ ClosesBlock body) ∨ PassesBlock cs) :
    (∃ body rest, p ++ cs = body ++ rest ∧ ClosesBlock body) ∨ PassesBlock (p ++ cs) := by
  obtain ⟨body, rest, rfl, hcloses⟩ | hpasses := h
  · refine .inl ⟨p ++ body, rest, (List.append_assoc p body rest).symm, fun n v => ?_⟩
    rw [List.append_assoc, hp _ _ (hcloses.fewerQuotes v rest), hcloses, List.length_append,
      Nat.add_assoc]
  · refine .inr fun n v hv => ?_
    rw [List.append_assoc, hp _ _ (fewerQuotes_append cs hv), hpasses _ _ hv, List.length_append,
      Nat.add_assoc]

/-- A text closes a block string, with the front of it at least, or is passed over. -/
theorem closesBlock_or_passesBlock (cs : List Char) :
    (∃ body rest, cs = body ++ rest ∧ ClosesBlock body) ∨ PassesBlock cs := by
  -- How many characters are read at once hangs on the quotes behind them, and what comes
  -- behind the text must not add to these.
  fun_induction scanBlockString 0 cs with
  | case1 _ cs => exact .inl ⟨['"', '"', '"'], cs, rfl, fun _ _ => rfl⟩
  | case2 _ cs ih =>
    exact closesBlock_or_passesBlock_step ['\\', '"', '"', '"'] (fun _ _ _ => rfl) ih
  | case3 _ cs hcs ih =>
    refine closesBlock_or_passesBlock_step ['\\', '"', '"'] (fun n u hu => ?_) ih
    refine scanBlockString.eq_3 n u fun t ht => ?_
    obtain ⟨t', ht'⟩ := hu.one t ht
    exact hcs t' ht'
  | case4 _ cs _ hcs ih =>
    refine closesBlock_or_passesBlock_step ['\\', '"'] (fun n u hu => ?_) ih
    have hquote : ∀ t, u = '"' :: t → False := fun t ht => (hu.one t ht).elim hcs
    exact scanBlockString.eq_4 n u (fun _ => hquote _) hquote
  | case5 _ c cs hquotes _ _ hescape ih =>
    refine closesBlock_or_passesBlock_step [c] (fun n u hu => ?_) ih
    have hescape' : ∀ t, c = '\\' → u = '"' :: t → False :=
      fun t hc ht => (hu.one t ht).elim (hescape · hc)
    have hquotes' : ∀ t, c = '"' → u = '"' :: '"' :: t → False :=
      fun t hc ht => (hu.two t ht).elim (hquotes · hc)
    exact scanBlockString.eq_5 n c u hquotes' (fun _ => hescape' _) (fun _ => hescape' _) hescape'
  | case6 _ => exact .inr fun _ _ _ => rfl

/-- One scan shows that a text closes a block string. -/
theorem closesBlock_of_scan {n : Nat} {cs : List Char}
    (h : scanBlockString n cs = .token (n + cs.length) .string) : ClosesBlock cs := by
  obtain ⟨body, rest, rfl, hcloses⟩ | hpasses := closesBlock_or_passesBlock cs
  · rw [hcloses] at h
    have hmore : n + _ = n + _ := congrArg Scan.more h
    rw [List.length_append] at hmore
    obtain rfl : rest = [] := List.eq_nil_of_length_eq_zero (by omega)
    rwa [List.append_nil]
  · have hfault := hpasses n [] (by simp)
    rw [List.append_nil, h] at hfault
    cases hfault

/-- A line before the one that closes a block string is passed over. -/
theorem ClosesBlock.of_line {l cs : List Char} (h : ClosesBlock (l ++ '\n' :: cs)) :
    ClosesBlock cs ∧ PassesBlock l := by
  have hend := h 0 []
  rw [List.append_nil] at hend
  rw [List.length_append, List.length_cons] at hend
  obtain ⟨body, rest, rfl, hcloses⟩ | hpasses := closesBlock_or_passesBlock l
  · rw [List.append_assoc, hcloses, List.length_append] at hend
    have hmore : 0 + _ = 0 + _ := congrArg Scan.more hend
    omega
  · rw [hpasses 0 ('\n' :: cs) (by simp)] at hend
    have hrest : scanBlockString (0 + l.length + 1) cs =
        .token (0 + l.length + 1 + cs.length) .string := by
      rw [show 0 + l.length + 1 + cs.length = 0 + (l.length + (cs.length + 1)) by omega]
      exact hend
    exact ⟨closesBlock_of_scan hrest, hpasses⟩

theorem closesBlock_line {l cs : List Char} (hl : PassesBlock l) (hcs : ClosesBlock cs) :
    ClosesBlock (l ++ '\n' :: cs) := by
  intro n rest
  have hfeed : scanBlockString (n + l.length) ('\n' :: (cs ++ rest)) =
      scanBlockString (n + l.length + 1) (cs ++ rest) := rfl
  rw [List.append_assoc, List.cons_append, hl _ _ (by simp), hfeed, hcs, List.length_append,
    List.length_cons]
  congr 1
  omega

theorem closesBlock_fill {w body : List Char} (hw : ∀ c ∈ w, IsFill c) (h : ClosesBlock body) :
    ClosesBlock (w ++ body) := by
  intro n rest
  rw [List.append_assoc, scanBlockString_fill hw, h, List.length_append, Nat.add_assoc]

/-! ## Strings -/

/-- A quoted string is closed on the line where it begins, whatever comes behind. -/
theorem scanString_closed {mode : StringMode} {noted : Option LexicalFault} {n : Nat}
    {cs : List Char} (h : ¬ (scanString mode noted n cs).IsFault) :
    ∃ inside rest, cs = inside ++ '"' :: rest ∧ '\n' ∉ inside ∧
      ∀ n rest', scanString mode noted n (inside ++ '"' :: rest') =
        .token (n + inside.length + 1) .string := by
  induction cs generalizing mode noted n with
  | nil => exact absurd (isFault_fault _ _) h
  | cons c cs ih =>
    have hne : '\n' ≠ c := by
      rintro rfl
      exact h (isFault_scanString_lineFeed mode noted n cs)
    by_cases hstep : c = '"' → closeString? mode noted = none
    · rw [scanString_step hstep] at h
      obtain ⟨inside, rest, rfl, hline, hclosed⟩ := ih h
      refine ⟨c :: inside, rest, rfl, by simp [hne, hline], fun n rest' => ?_⟩
      rw [List.cons_append, scanString_step hstep, hclosed, List.length_cons]
      congr 1
      omega
    · obtain ⟨rfl, hclose⟩ := not_forall.mp hstep
      obtain ⟨noted', hnoted⟩ := Option.ne_none_iff_exists'.mp hclose
      rw [scanString_close hnoted] at h
      cases noted' with
      | none => exact ⟨[], cs, rfl, by simp, fun n rest' => scanString_close hnoted n rest'⟩
      | some f => exact absurd (isFault_fault _ _) h

/-- A string behind its first quote is a block string, or is closed on its line, where the
line may also be the one behind a line feed that stands first. -/
theorem scanQuote_closed {cs : List Char} (h : ¬ (scanQuote cs).IsFault) :
    (∃ body rest, cs = '"' :: '"' :: (body ++ rest) ∧ ClosesBlock body) ∨
    ∃ inside rest, cs = inside ++ '"' :: rest ∧ '\n' ∉ inside.tail ∧ ∀ rest',
      rest'.head? = rest.head? →
        scanQuote (inside ++ '"' :: rest') = .token (inside.length + 1) .string := by
  fun_cases scanQuote cs with
  | case1 => exact absurd (isFault_fault _ _) h
  | case2 cs =>
    obtain ⟨body, rest, rfl, hcloses⟩ | hpasses := closesBlock_or_passesBlock cs
    · exact .inl ⟨body, rest, rfl, hcloses⟩
    · have hfault := hpasses 2 [] (by simp)
      rw [List.append_nil] at hfault
      rw [scanQuote, hfault] at h
      exact absurd (isFault_fault _ _) h
  | case3 cs hcs =>
    refine .inr ⟨[], cs, rfl, by simp, fun rest' hhead => scanQuote.eq_3 rest' ?_⟩
    rintro t rfl
    obtain ⟨t', rfl⟩ := List.head?_eq_some_iff.mp hhead.symm
    exact hcs t' rfl
  | case4 cs =>
    obtain ⟨inside, rest, rfl, hline, hclosed⟩ := scanString_closed h
    refine .inr ⟨'\\' :: inside, rest, rfl, hline, fun rest' _ => ?_⟩
    rw [List.cons_append, scanQuote, hclosed, List.length_cons, Nat.add_comm 1]
  | case5 c cs htwo hone hescape =>
    have hquote : ∀ cs, scanQuote (c :: cs) = scanString .body none 1 cs :=
      fun cs => scanQuote.eq_5 c cs (fun _ hc _ => hone hc) hone hescape
    rw [hquote] at h
    obtain ⟨inside, rest, rfl, hline, hclosed⟩ := scanString_closed h
    refine .inr ⟨c :: inside, rest, rfl, hline, fun rest' _ => ?_⟩
    rw [List.cons_append, hquote, hclosed, List.length_cons, Nat.add_comm 1]

end SchemaLint.Sdl
