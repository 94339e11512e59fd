import Mathlib.Data.List.Basic
import SchemaLint.Federation.Composition
import SchemaLint.Proofs.Sdl.Thinning

/-!
# What comment lines leave

A text with its comment lines left out is the text with them blanked out, less white
space. So it is read to the same definitions, and each of them stands on the line that
`keptLineNumbers` gives for its line in the shorter text.
-/

namespace SchemaLint.Source

open Text Sdl Federation

/-! ## Lines by offset -/

namespace LineIndex

theorem lt_of_mem_startsFrom {position start : Nat} {cs : List Char}
    (h : start ∈ startsFrom position cs) : position < start := by
  induction cs generalizing position with
  | nil => simp [startsFrom] at h
  | cons c cs ih =>
    have hpos := c.utf8Size_pos
    rw [startsFrom] at h
    split at h
    · rcases List.mem_cons.mp h with rfl | h
      · omega
      · have := ih h
        omega
    · have := ih h
      omega

theorem countP_startsFrom (position : Nat) (a b : List Char) :
    (startsFrom position (a ++ b)).countP (· ≤ position + byteLength a) = a.count '\n' := by
  induction a generalizing position with
  | nil =>
    refine List.countP_eq_zero.mpr fun start h => ?_
    exact fun hle => Nat.not_le.mpr (lt_of_mem_startsFrom h) (of_decide_eq_true hle)
  | cons c a ih =>
    rw [List.cons_append, startsFrom, byteLength_cons, ← Nat.add_assoc]
    by_cases hc : c = '\n'
    · rw [if_pos hc, hc, List.countP_cons_of_pos (by simp), ih, List.count_cons_self]
    · rw [if_neg hc, ih, List.count_cons_of_ne hc]

/-- The line of a position is told by the line feeds before it. -/
theorem lineOfOffset_append (a b : List Char) :
    (ofText (String.ofList (a ++ b))).lineOfOffset (byteLength a) = a.count '\n' + 1 := by
  have h := countP_startsFrom 0 a b
  rw [Nat.zero_add] at h
  rw [lineOfOffset, ofText, String.toList_ofList, List.countP_cons_of_pos (by simp), h]

theorem lineOfOffset_mono (index : LineIndex) {o o' : Nat} (h : o ≤ o') :
    index.lineOfOffset o ≤ index.lineOfOffset o' := by
  refine List.countP_mono_left fun start _ hstart => ?_
  simp only [decide_eq_true_eq] at hstart ⊢
  omega

end LineIndex

/-! ## Texts line by line -/

theorem pieces_line {l : List Char} (hl : '\n' ∉ l) (cs : List Char) :
    pieces (l ++ '\n' :: cs) = (l ++ ['\n']) :: pieces cs := by
  induction l with
  | nil => rfl
  | cons c l ih =>
    rw [List.mem_cons, not_or] at hl
    rw [List.cons_append, pieces, if_neg (Ne.symm hl.1), ih hl.2]
    rfl

theorem pieces_last {l : List Char} (hl : '\n' ∉ l) (hne : l ≠ []) : pieces l = [l] := by
  induction l with
  | nil => exact absurd rfl hne
  | cons c l ih =>
    rw [List.mem_cons, not_or] at hl
    rw [pieces, if_neg (Ne.symm hl.1)]
    cases l with
    | nil => rfl
    | cons d l => rw [ih hl.2 (List.cons_ne_nil d l)]

/-- A text is empty, or a last line that is not closed, or a line and a text. -/
theorem line_induction {motive : List Char → Prop} (nil : motive [])
    (last : ∀ l, '\n' ∉ l → l ≠ [] → motive l)
    (line : ∀ l cs, '\n' ∉ l → motive cs → motive (l ++ '\n' :: cs)) (cs : List Char) :
    motive cs := by
  induction hn : cs.length using Nat.strongRecOn generalizing cs with
  | ind n ih =>
    by_cases hmem : '\n' ∈ cs
    · obtain ⟨l, rest, rfl, hl⟩ := List.eq_append_cons_of_mem hmem
      refine line l rest hl (ih rest.length ?_ rest rfl)
      rw [← hn, List.length_append, List.length_cons]
      omega
    · by_cases hne : cs = []
      · rw [hne]
        exact nil
      · exact last cs hmem hne

/-- The end of a line is a line feed, perhaps with a carriage return before it. -/
def IsEnding (ending : List Char) : Prop := ending = ['\n'] ∨ ending = ['\r', '\n']

theorem chomp_line (l : List Char) :
    ∃ ending, IsEnding ending ∧ l ++ ['\n'] = chomp (l ++ ['\n']) ++ ending := by
  unfold chomp
  rw [List.reverse_append, List.reverse_singleton, List.singleton_append]
  split
  · next r hr =>
    obtain rfl : l = r.reverse ++ ['\r'] := by
      rw [← List.reverse_reverse l, (List.cons.inj hr).2, List.reverse_cons]
    exact ⟨_, .inr rfl, List.append_assoc _ _ _⟩
  · next r _ hr =>
    obtain rfl : l = r.reverse := by
      rw [← List.reverse_reverse l, (List.cons.inj hr).2]
    exact ⟨_, .inl rfl, rfl⟩
  · next _ hne => exact absurd rfl (hne _)

theorem chomp_last {l : List Char} (hl : '\n' ∉ l) : chomp l = l := by
  have hrev : ∀ r, l.reverse ≠ '\n' :: r := by
    intro r hr
    refine hl (List.mem_reverse.mp ?_)
    rw [hr]
    exact List.mem_cons_self
  unfold chomp
  split
  · next hr => exact absurd hr (hrev _)
  · next hr => exact absurd hr (hrev _)
  · rfl

theorem lines_line {l : List Char} (hl : '\n' ∉ l) (cs : List Char) :
    lines (l ++ '\n' :: cs) = chomp (l ++ ['\n']) :: lines cs := by
  rw [lines, pieces_line hl, List.map_cons, lines]

theorem lines_last {l : List Char} (hl : '\n' ∉ l) (hne : l ≠ []) : lines l = [l] := by
  rw [lines, pieces_last hl hne, List.map_singleton, chomp_last hl]

theorem not_slash_of_mem_ending {ending : List Char} (h : IsEnding ending) : '/' ∉ ending := by
  rcases h with rfl | rfl <;> decide

/-- The line end has no part in whether a line is a comment. -/
theorem isCommentLine_append {ending : List Char} (h : IsEnding ending) (q : List Char) :
    isCommentLine (q ++ ending) = isCommentLine q := by
  have hblank : ending.dropWhile isBlank = [] := by
    rcases h with rfl | rfl <;> rfl
  unfold isCommentLine trimStart
  rw [List.dropWhile_append, hblank]
  split
  · next hempty => rw [List.isEmpty_iff.mp hempty]
  · rw [Bool.eq_iff_iff, List.isPrefixOf_iff_prefix, List.isPrefixOf_iff_prefix]
    refine ⟨fun hp => ?_, fun hp => hp.trans (List.prefix_append _ _)⟩
    obtain ⟨rest, hrest⟩ := hp
    obtain ⟨x, hx, -⟩ | ⟨x, hx, hending⟩ := List.append_eq_append_iff.mp hrest
    · exact ⟨x, hx.symm⟩
    · cases x with
      | nil => exact ⟨[], by rw [hx, List.append_nil, List.append_nil]⟩
      | cons c x =>
        -- A slash of the mark would have to belong to the line end.
        have hc : c ∈ ['/', '/'] := by
          rw [hx]
          simp
        obtain rfl : c = '/' := by simpa using hc
        refine absurd ?_ (not_slash_of_mem_ending h)
        rw [hending]
        simp

theorem byteLength_blankOut (piece : List Char) :
    byteLength (blankOut piece) = byteLength piece := by
  have hspaces : ∀ n, byteLength (List.replicate n ' ') = n := by
    intro n
    induction n with
    | zero => rfl
    | succ n ih => rw [List.replicate_succ, byteLength_cons, ih, Nat.add_comm]; rfl
  unfold blankOut
  rw [byteLength_append, hspaces, ← byteLength_append, ← List.reverse_append,
    List.takeWhile_append_dropWhile, List.reverse_reverse]

theorem isFill_of_mem_blankOut {piece : List Char} {c : Char} (h : c ∈ blankOut piece) :
    IsFill c := by
  unfold blankOut at h
  rcases List.mem_append.mp h with h | h
  · rw [List.eq_of_mem_replicate h]
    exact ⟨by decide, by decide⟩
  · have hend : isLineEnd c = true :=
      List.all_eq_true.mp List.all_takeWhile c (List.mem_reverse.mp h)
    simp only [isLineEnd, Bool.or_eq_true, beq_iff_eq] at hend
    rcases hend with rfl | rfl <;> exact ⟨by decide, by decide⟩

/-! ## Blanked out and left out -/

theorem byteLength_toList (text : String) : byteLength text.toList = text.utf8ByteSize := by
  have h : ∀ cs, (String.ofList cs).utf8ByteSize = byteLength cs := by
    intro cs
    induction cs with
    | nil => rfl
    | cons c cs ih =>
      rw [String.ofList_cons, String.utf8ByteSize_append, String.utf8ByteSize_singleton, ih]
      rfl
  rw [← h, String.ofList_toList]

/-- A text with its comment lines blanked out. -/
def mask (cs : List Char) : List Char :=
  (pieces cs).flatMap fun piece => if isCommentLine piece then blankOut piece else piece

def keptLines (cs : List Char) : List (List Char) := (lines cs).filter (!isCommentLine ·)

/-- A text with its comment lines left out. -/
def strip (cs : List Char) : List Char := List.intercalate ['\n'] (keptLines cs)

/-- The numbers of the lines that are kept of a text whose first line is the `n`-th. -/
def keptNumbers (n : Nat) (cs : List Char) : List Nat :=
  ((lines cs).zipIdx n).filterMap fun (line, number) =>
    if isCommentLine line then none else some number

theorem isCommentLine_chomp (l : List Char) :
    isCommentLine (chomp (l ++ ['\n'])) = isCommentLine l := by
  obtain ⟨ending, hending, heq⟩ := chomp_line l
  rw [← isCommentLine_append hending, ← heq, isCommentLine_append (.inl rfl)]

section Line

variable {l : List Char} (hl : '\n' ∉ l) (cs : List Char)
include hl

theorem mask_line : mask (l ++ '\n' :: cs) =
    (if isCommentLine l then blankOut (l ++ ['\n']) else l ++ ['\n']) ++ mask cs := by
  rw [mask, pieces_line hl, List.flatMap_cons, isCommentLine_append (.inl rfl)]
  rfl

theorem keptLines_line : keptLines (l ++ '\n' :: cs) =
    if isCommentLine l then keptLines cs else chomp (l ++ ['\n']) :: keptLines cs := by
  rw [keptLines, lines_line hl, List.filter_cons, isCommentLine_chomp]
  cases isCommentLine l <;> rfl

theorem keptNumbers_line (n : Nat) : keptNumbers n (l ++ '\n' :: cs) =
    if isCommentLine l then keptNumbers (n + 1) cs else n :: keptNumbers (n + 1) cs := by
  rw [keptNumbers, lines_line hl, List.zipIdx_cons, List.filterMap_cons]
  dsimp only
  rw [isCommentLine_chomp]
  cases isCommentLine l <;> rfl

variable (hne : l ≠ [])
include hne

theorem mask_last : mask l = if isCommentLine l then blankOut l else l := by
  rw [mask, pieces_last hl hne, List.flatMap_singleton]

theorem keptLines_last : keptLines l = if isCommentLine l then [] else [l] := by
  rw [keptLines, lines_last hl hne]
  cases h : isCommentLine l <;> simp [h]

theorem keptNumbers_last (n : Nat) : keptNumbers n l = if isCommentLine l then [] else [n] := by
  rw [keptNumbers, lines_last hl hne]
  cases h : isCommentLine l <;> simp [h]

end Line

theorem byteLength_mask (cs : List Char) : byteLength (mask cs) = byteLength cs := by
  induction cs using line_induction with
  | nil => rfl
  | last l hl hne =>
    rw [mask_last hl hne]
    split
    · exact byteLength_blankOut l
    · rfl
  | line l cs hl ih =>
    rw [mask_line hl, byteLength_append, ih, List.append_cons l '\n' cs,
      byteLength_append (l ++ ['\n']) cs]
    split
    · rw [byteLength_blankOut]
    · rfl

/-- A text of comment lines is blank once they are blanked out. -/
theorem isFill_of_mem_mask {cs : List Char} (hcs : keptLines cs = []) {c : Char}
    (h : c ∈ mask cs) : IsFill c := by
  induction cs using line_induction with
  | nil => simp [mask] at h
  | last l hl hne =>
    rw [keptLines_last hl hne] at hcs
    rw [mask_last hl hne] at h
    split at hcs
    · next hl => rw [if_pos hl] at h; exact isFill_of_mem_blankOut h
    · cases hcs
  | line l cs hl ih =>
    rw [keptLines_line hl] at hcs
    rw [mask_line hl] at h
    split at hcs
    · next hcomment =>
      rw [if_pos hcomment] at h
      rcases List.mem_append.mp h with h | h
      · exact isFill_of_mem_blankOut h
      · exact ih hcs h
    · cases hcs

/-- White space can be left out as a whole where one character of it can. -/
theorem thins_drop {R : Nat → Nat → Prop} {fresh : Bool} {o o' : Nat} {w m t : List Char}
    (hw : ∀ c ∈ w, IsFill c) (free : fresh = true ∨ t = [] ∨ t.head? = some '\n')
    (h : Thins R fresh (o + byteLength w) o' m t) : Thins R fresh o o' (w ++ m) t := by
  induction w generalizing o with
  | nil => exact h
  | cons c w ih =>
    rw [byteLength_cons, ← Nat.add_assoc] at h
    have hrest := ih (fun c hc => hw c (List.mem_cons_of_mem _ hc)) h
    exact .drop c (hw c List.mem_cons_self) free hrest

/-- A text is kept if the positions in it match. Behind it a line is fresh if it ended
one. -/
theorem thins_keep {R : Nat → Nat → Prop} {fresh : Bool} {o o' : Nat} {q m t : List Char}
    (hq : ∀ u v, q = u ++ v → v ≠ [] → R (o + byteLength u) (o' + byteLength u))
    (h : Thins R (q.getLast?.elim fresh (· == '\n')) (o + byteLength q) (o' + byteLength q) m t) :
    Thins R fresh o o' (q ++ m) (q ++ t) := by
  induction q generalizing fresh o o' with
  | nil => exact h
  | cons c q ih =>
    refine .keep c (hq [] _ rfl (List.cons_ne_nil c q)) (ih (fun u v hu hv => ?_) ?_)
    · have := hq (c :: u) v (congrArg (c :: ·) hu) hv
      rwa [byteLength_cons, ← Nat.add_assoc, ← Nat.add_assoc] at this
    · rw [byteLength_cons, ← Nat.add_assoc, ← Nat.add_assoc] at h
      cases hlast : q.getLast? with
      | none => simpa [List.getLast?_eq_none_iff.mp hlast] using h
      | some d => simpa [List.getLast?_cons, hlast] using h

/-- An offset of a text and one of the text without comment lines are on the same
line. Nothing is said of the end of the text, which is no part of a line. -/
def SameLine (source : String) (o o' : Nat) : Prop :=
  o < source.utf8ByteSize →
    (LineIndex.ofText source).lineOfOffset o =
      keptLine (keptLineNumbers source)
        ((LineIndex.ofText (stripCommentLines source)).lineOfOffset o')

/-- What is kept of a line stands on that line. -/
theorem sameLine_of_kept {source : String} {a a' b b' x y : List Char} {ns rest : List Nat}
    (hs : source.toList = a ++ (x ++ b)) (ht : strip source.toList = a' ++ (y ++ b'))
    (hkept : keptLineNumbers source = ns ++ (a.count '\n' + 1) :: rest)
    (hlength : ns.length = a'.count '\n') (hx : '\n' ∉ x) (hy : '\n' ∉ y) :
    SameLine source (byteLength a + byteLength x) (byteLength a' + byteLength y) := by
  intro _
  have hline : (LineIndex.ofText source).lineOfOffset (byteLength a + byteLength x) =
      a.count '\n' + 1 := by
    rw [← String.ofList_toList (s := source), hs, ← List.append_assoc, ← byteLength_append,
      LineIndex.lineOfOffset_append, List.count_append, List.count_eq_zero.mpr hx, Nat.add_zero]
  have hline' : (LineIndex.ofText (stripCommentLines source)).lineOfOffset
      (byteLength a' + byteLength y) = ns.length + 1 := by
    have hstrip : stripCommentLines source = String.ofList (strip source.toList) := rfl
    rw [hstrip, ht, ← List.append_assoc, ← byteLength_append, LineIndex.lineOfOffset_append,
      List.count_append, List.count_eq_zero.mpr hy, Nat.add_zero, hlength]
  rw [hline, hline', hkept, keptLine, List.getElem?_append_right (Nat.le_refl _), Nat.sub_self]
  rfl

theorem thins_line {source : String} {a a' b b' q m t : List Char} {ns rest : List Nat}
    {fresh : Bool} (hs : source.toList = a ++ (q ++ b)) (ht : strip source.toList = a' ++ (q ++ b'))
    (hkept : keptLineNumbers source = ns ++ (a.count '\n' + 1) :: rest)
    (hlength : ns.length = a'.count '\n') (hq : '\n' ∉ q)
    (h : ∀ fresh, Thins (SameLine source) fresh (byteLength a + byteLength q)
      (byteLength a' + byteLength q) m t) :
    Thins (SameLine source) fresh (byteLength a) (byteLength a') (q ++ m) (q ++ t) := by
  refine thins_keep (fun p r hr _ => ?_) (h _)
  subst hr
  have hp : '\n' ∉ p := fun hmem => hq (List.mem_append_left r hmem)
  rw [List.append_assoc] at hs ht
  exact sameLine_of_kept hs ht hkept hlength hp hp

theorem strip_nil_of_keptLines {cs : List Char} (h : keptLines cs = []) : strip cs = [] := by
  rw [strip, h]
  rfl

theorem strip_line {l : List Char} (hl : '\n' ∉ l) (hc : isCommentLine l = false) {cs : List Char}
    (h : keptLines cs ≠ []) :
    strip (l ++ '\n' :: cs) = chomp (l ++ ['\n']) ++ '\n' :: strip cs := by
  obtain ⟨k, ks, hk⟩ := List.exists_cons_of_ne_nil h
  rw [strip, strip, keptLines_line hl, hc, hk]
  exact (List.intercalate_cons_cons).trans (List.append_assoc _ _ _)

/-- A line that is kept, and with it its end if a line is kept behind it. -/
theorem thins_mask_line {source : String} {l cs a a' : List Char} {ns rest : List Nat}
    {fresh : Bool} (hl : '\n' ∉ l) (hc : isCommentLine l = false)
    (hs : source.toList = a ++ (l ++ ['\n'] ++ cs))
    (ht : strip source.toList = a' ++ strip (l ++ '\n' :: cs))
    (hkept : keptLineNumbers source = ns ++ (a.count '\n' + 1) :: rest)
    (hlength : ns.length = a'.count '\n')
    (h : strip source.toList = a' ++ (chomp (l ++ ['\n']) ++ ['\n']) ++ strip cs →
      (ns ++ [a.count '\n' + 1]).length = (a' ++ (chomp (l ++ ['\n']) ++ ['\n'])).count '\n' →
      Thins (SameLine source) true (byteLength (a ++ (l ++ ['\n'])))
        (byteLength (a' ++ (chomp (l ++ ['\n']) ++ ['\n']))) (mask cs) (strip cs)) :
    Thins (SameLine source) fresh (byteLength a) (byteLength a') (mask (l ++ '\n' :: cs))
      (strip (l ++ '\n' :: cs)) := by
  obtain ⟨ending, hending, hline⟩ := chomp_line l
  have hfill : ∀ c ∈ ending, IsFill c := by
    rcases hending with rfl | rfl <;> simp [IsFill, isSpace]
  generalize hchomp : chomp (l ++ ['\n']) = q at h hline
  have hq : '\n' ∉ q := by
    have hcount := congrArg (List.count '\n') hline
    rw [List.count_append, List.count_append, List.count_eq_zero.mpr hl] at hcount
    have hone : ending.count '\n' = 1 := by
      rcases hending with rfl | rfl <;> rfl
    rw [hone] at hcount
    exact List.count_eq_zero.mp (Nat.add_right_cancel hcount).symm
  rw [mask_line hl, hc]
  show Thins _ _ _ _ (l ++ ['\n'] ++ mask cs) _
  by_cases hlines : keptLines cs = []
  · have hstrip : strip (l ++ '\n' :: cs) = q ++ [] := by
      rw [strip, keptLines_line hl, hc, hlines, List.append_nil, hchomp]
      exact List.intercalate_singleton
    rw [hstrip] at ht ⊢
    rw [hline, List.append_assoc] at hs ⊢
    refine thins_line hs ht hkept hlength hq fun fresh => ?_
    rw [← List.append_nil (ending ++ mask cs)]
    refine thins_drop (fun c hmem => ?_) (.inr (.inl rfl)) .nil
    rcases List.mem_append.mp hmem with hmem | hmem
    · exact hfill c hmem
    · exact isFill_of_mem_mask hlines hmem
  · rw [strip_line hl hc hlines, hchomp] at ht ⊢
    have hrest := h (by rw [ht]; simp) (by simp [hlength, List.count_eq_zero.mpr hq])
    rw [hline, List.append_assoc] at hs ⊢
    rw [hline] at hrest
    refine thins_line hs ht hkept hlength hq fun fresh => ?_
    rw [byteLength_append, byteLength_append, byteLength_append, byteLength_append,
      ← Nat.add_assoc, ← Nat.add_assoc] at hrest
    rcases hending with rfl | rfl
    · exact .keep '\n' (sameLine_of_kept hs ht hkept hlength hq hq) hrest
    · refine .drop '\r' ⟨by decide, by decide⟩ (.inr (.inr rfl)) (.keep '\n' ?_ hrest)
      have hs' : source.toList = a ++ ((q ++ ['\r']) ++ ('\n' :: cs)) := by
        rw [hs, List.append_assoc]
        rfl
      have hq' : '\n' ∉ q ++ ['\r'] := by simpa using hq
      have hsame := sameLine_of_kept hs' ht hkept hlength hq' hq
      rwa [byteLength_append, ← Nat.add_assoc] at hsame

/-- Going through a text line by line. Before the text `cs` that is still ahead lie `a`,
of which `a'` is kept, and the numbers `ns` of the lines of `a'`. -/
theorem thins_mask {source : String} (cs : List Char) : ∀ {a a' : List Char} {ns : List Nat},
    source.toList = a ++ cs → strip source.toList = a' ++ strip cs →
    keptLineNumbers source = ns ++ keptNumbers (a.count '\n' + 1) cs →
    (keptLines cs ≠ [] → ns.length = a'.count '\n') →
    Thins (SameLine source) true (byteLength a) (byteLength a') (mask cs) (strip cs) := by
  induction cs using line_induction with
  | nil =>
    intros
    exact .nil
  | last l hl hne =>
    intro a a' ns hs ht hkept hlength
    by_cases hc : isCommentLine l = true
    · have hlines : keptLines l = [] := by rw [keptLines_last hl hne, if_pos hc]
      rw [strip_nil_of_keptLines hlines, ← List.append_nil (mask l)]
      exact thins_drop (fun c h => isFill_of_mem_mask hlines h) (.inl rfl) .nil
    · have hlines : keptLines l = [l] := by rw [keptLines_last hl hne, if_neg hc]
      have hstrip : strip l = l := by
        rw [strip, hlines]
        exact List.intercalate_singleton
      rw [keptNumbers_last hl hne, if_neg hc] at hkept
      rw [hstrip] at ht ⊢
      rw [mask_last hl hne, if_neg hc, ← List.append_nil l]
      rw [← List.append_nil l] at hs ht
      exact thins_line hs ht hkept (hlength (by rw [hlines]; exact List.cons_ne_nil _ _)) hl
        fun _ => .nil
  | line l cs hl ih =>
    intro a a' ns hs ht hkept hlength
    have hcount : (a ++ (l ++ ['\n'])).count '\n' = a.count '\n' + 1 := by
      rw [List.count_append, List.count_append, List.count_eq_zero.mpr hl]
      rfl
    rw [List.append_cons l '\n' cs] at hs
    rw [keptNumbers_line hl] at hkept
    rw [keptLines_line hl] at hlength
    by_cases hc : isCommentLine l = true
    · have hstrip : strip (l ++ '\n' :: cs) = strip cs := by
        rw [strip, keptLines_line hl, if_pos hc, strip]
      rw [if_pos hc, ← hcount] at hkept
      rw [if_pos hc] at hlength
      rw [hstrip] at ht ⊢
      rw [mask_line hl, if_pos hc]
      refine thins_drop (fun c h => isFill_of_mem_blankOut h) (.inl rfl) ?_
      rw [byteLength_blankOut, ← byteLength_append]
      exact ih (hs.trans (List.append_assoc a _ cs).symm) ht hkept hlength
    · have hc := Bool.not_eq_true _ ▸ hc
      rw [hc] at hkept hlength
      exact thins_mask_line hl hc hs ht hkept (hlength (List.cons_ne_nil _ _))
        fun ht' hlines => ih (hs.trans (List.append_assoc a _ cs).symm) ht' (by
          rw [hkept, hcount, List.append_assoc]
          rfl) fun _ => hlines

theorem toList_maskCommentLines (source : String) :
    (maskCommentLines source).toList = mask source.toList := String.toList_ofList

theorem toList_stripCommentLines (source : String) :
    (stripCommentLines source).toList = strip source.toList := String.toList_ofList

theorem thins_maskCommentLines (source : String) :
    Thins (SameLine source) true 0 0 (maskCommentLines source).toList
      (stripCommentLines source).toList := by
  rw [toList_maskCommentLines, toList_stripCommentLines]
  exact @thins_mask source source.toList [] [] [] rfl rfl rfl fun _ => rfl

/-- Definitions on the same lines. String values may differ, where a comment line
stands in a block string. -/
def lineLikeness (source : String) : Likeness := ⟨fun _ _ => True, SameLine source⟩

theorem utf8ByteSize_maskCommentLines (source : String) :
    (maskCommentLines source).utf8ByteSize = source.utf8ByteSize := by
  rw [← byteLength_toList, toList_maskCommentLines, byteLength_mask, byteLength_toList]

/-- The ends of the two texts match, as nothing is said of them. -/
theorem sameLine_ending (source : String) :
    SameLine source (maskCommentLines source).utf8ByteSize
      (stripCommentLines source).utf8ByteSize := by
  rw [utf8ByteSize_maskCommentLines]
  exact fun hlt => absurd hlt (Nat.lt_irrefl source.utf8ByteSize)

/-- A text that can be read with its comment lines blanked out can be read without
them, and to definitions on the same lines. -/
theorem read_stripCommentLines {source : String}
    (h : (read (maskCommentLines source)).faults = []) :
    (read (stripCommentLines source)).faults = [] ∧
      List.Forall₂ (lineLikeness source).Definitions (read (maskCommentLines source)).definitions
        (read (stripCommentLines source)).definitions := by
  have hvalue : ∀ v w, (lineLikeness source).value v w := fun _ _ => trivial
  exact read_of_thins hvalue (thins_maskCommentLines source) (sameLine_ending source) h

end SchemaLint.Source
