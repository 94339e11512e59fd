import SchemaLint.Proofs.AlikeDocuments
import SchemaLint.Proofs.ParseFailure
import SchemaLint.Proofs.Sdl.BlockString

/-!
# Putting in a comment line

A comment line that is put in between two lines of a schema moves what stands below it
down by one line and changes nothing else. Blanked out it is a line of white space, so
the schema is read to the same definitions at moved positions; left out it leaves no
trace but in the numbers of the lines that are kept. The one place where a line may not
be put in is right behind the line feed that a quoted string starts with.
-/

namespace SchemaLint.Source

open Text Sdl Federation

/-! ## Texts of whole lines -/

/-- The text is empty or ends in a line feed. -/
def WholeLines (cs : List Char) : Prop := ∀ c ∈ cs.getLast?, c = '\n'

theorem wholeLines_append_iff (a : List Char) {b : List Char} (hb : b ≠ []) :
    WholeLines (a ++ b) ↔ WholeLines b := by
  rw [WholeLines, WholeLines, List.getLast?_append_of_ne_nil a hb]

theorem wholeLines_line (l cs : List Char) : WholeLines (l ++ '\n' :: cs) ↔ WholeLines cs := by
  rw [wholeLines_append_iff l (List.cons_ne_nil _ cs)]
  cases cs with
  | nil => simp [WholeLines]
  | cons c cs => exact wholeLines_append_iff ['\n'] (List.cons_ne_nil c cs)

/-- The last line of a text that is not empty is not closed, or the text is all whole
lines. -/
theorem not_wholeLines_last {l : List Char} (hl : '\n' ∉ l) (hne : l ≠ []) : ¬ WholeLines l := by
  intro h
  have hlast := h _ (List.getLast?_eq_some_getLast hne)
  exact hl (hlast ▸ List.getLast_mem hne)

theorem pieces_append {a : List Char} (ha : WholeLines a) (b : List Char) :
    pieces (a ++ b) = pieces a ++ pieces b := by
  induction a using line_induction with
  | nil => rfl
  | last l hl hne => exact absurd ha (not_wholeLines_last hl hne)
  | line l cs hl ih =>
    rw [List.append_assoc, List.cons_append, pieces_line hl, pieces_line hl,
      ih ((wholeLines_line l cs).mp ha), List.cons_append]

theorem length_pieces {a : List Char} (ha : WholeLines a) : (pieces a).length = a.count '\n' := by
  induction a using line_induction with
  | nil => rfl
  | last l hl hne => exact absurd ha (not_wholeLines_last hl hne)
  | line l cs hl ih =>
    rw [pieces_line hl, List.length_cons, ih ((wholeLines_line l cs).mp ha), List.count_append,
      List.count_cons_self, List.count_eq_zero.mpr hl, Nat.zero_add]

theorem wholeLines_mask {a : List Char} (ha : WholeLines a) : WholeLines (mask a) := by
  have hline : ∀ l : List Char, (blankOut (l ++ ['\n'])).getLast? = some '\n' := by
    intro l
    rw [blankOut, List.reverse_append, List.reverse_singleton, List.singleton_append,
      List.takeWhile_cons_of_pos (by decide), List.reverse_cons, ← List.append_assoc,
      List.getLast?_append]
    rfl
  induction a using line_induction with
  | nil => exact ha
  | last l hl hne => exact absurd ha (not_wholeLines_last hl hne)
  | line l cs hl ih =>
    have hrest := ih ((wholeLines_line l cs).mp ha)
    rw [mask_line hl]
    by_cases hmask : mask cs = []
    · rw [hmask, List.append_nil]
      split
      · simp [WholeLines, hline]
      · simp [WholeLines]
    · rwa [wholeLines_append_iff _ hmask]

/-! ## The line that is put in -/

/-- The lines before line `k`, with their ends. -/
def linesBefore (k : Nat) (cs : List Char) : List Char := ((pieces cs).take (k - 1)).flatten

/-- Line `k` and the lines behind it. -/
def linesFrom (k : Nat) (cs : List Char) : List Char := ((pieces cs).drop (k - 1)).flatten

/-- A text with one more line before line `k`. -/
def insertLine (k : Nat) (line text : String) : String :=
  String.ofList (linesBefore k text.toList ++ (line.toList ++ ['\n']) ++ linesFrom k text.toList)

theorem linesBefore_append_linesFrom (k : Nat) (cs : List Char) :
    linesBefore k cs ++ linesFrom k cs = cs := by
  rw [linesBefore, linesFrom, ← List.flatten_append, List.take_append_drop, flatten_pieces]

theorem wholeLines_linesBefore {k : Nat} {cs : List Char} (hk : k ≤ cs.count '\n' + 1) :
    WholeLines (linesBefore k cs) ∧ (linesBefore k cs).count '\n' = k - 1 := by
  have h : ∀ n, n ≤ cs.count '\n' → WholeLines ((pieces cs).take n).flatten ∧
      ((pieces cs).take n).flatten.count '\n' = n := by
    clear hk
    induction cs using line_induction with
    | nil =>
      intro n hn
      obtain rfl := Nat.le_zero.mp hn
      exact ⟨by simp [WholeLines], rfl⟩
    | last l hl hne =>
      intro n hn
      rw [List.count_eq_zero.mpr hl] at hn
      obtain rfl := Nat.le_zero.mp hn
      exact ⟨by simp [WholeLines], rfl⟩
    | line l cs hl ih =>
      intro n hn
      cases n with
      | zero => exact ⟨by simp [WholeLines], rfl⟩
      | succ n =>
        have hcount : (l ++ ['\n']).count '\n' = 1 := by
          rw [List.count_append, List.count_eq_zero.mpr hl]
          rfl
        have hrest : n ≤ cs.count '\n' := by
          rw [List.append_cons l, List.count_append, hcount] at hn
          omega
        obtain ⟨hwhole, hlines⟩ := ih n hrest
        rw [pieces_line hl, List.take_succ_cons, List.flatten_cons]
        refine ⟨?_, ?_⟩
        · rw [← List.append_cons]
          exact (wholeLines_line l _).mpr hwhole
        · rw [List.count_append, hcount, hlines, Nat.add_comm]
  exact h (k - 1) (by omega)

/-- Where line `n` goes when a line is put in before line `k`. -/
def shiftLine (k n : Nat) : Nat := if n < k then n else n + 1

theorem shiftLine_of_lt {k n : Nat} (h : n < k) : shiftLine k n = n := if_pos h

theorem shiftLine_of_le {k n : Nat} (h : k ≤ n) : shiftLine k n = n + 1 := if_neg (Nat.not_lt.mpr h)

/-- The offset `o` is where `o'` goes when `n` bytes are put in at `p`. -/
def MovedBy (p n : Nat) (o o' : Nat) : Prop := o = if o' < p then o' else o' + n

/-! ### Lines of moved offsets -/

namespace LineIndex

theorem startsFrom_append (position : Nat) (a b : List Char) :
    startsFrom position (a ++ b) =
      startsFrom position a ++ startsFrom (position + byteLength a) b := by
  induction a generalizing position with
  | nil => rfl
  | cons c a ih =>
    rw [List.cons_append, startsFrom, startsFrom, ih, byteLength_cons, ← Nat.add_assoc]
    split
    · rfl
    · rfl

theorem startsFrom_add (position n : Nat) (cs : List Char) :
    startsFrom (position + n) cs = (startsFrom position cs).map (· + n) := by
  induction cs generalizing position with
  | nil => rfl
  | cons c cs ih =>
    rw [startsFrom, startsFrom, Nat.add_right_comm, ih]
    split
    · rfl
    · rfl

theorem le_of_mem_startsFrom {position start : Nat} {cs : List Char}
    (h : start ∈ startsFrom position cs) : start ≤ position + byteLength cs := by
  induction cs generalizing position with
  | nil => cases h
  | cons c cs ih =>
    rw [byteLength_cons, ← Nat.add_assoc]
    rw [startsFrom] at h
    split at h
    · rcases List.mem_cons.mp h with rfl | h
      · exact Nat.le_add_right _ _
      · exact ih h
    · exact ih h

/-- Behind whole lines a line starts. -/
theorem mem_startsFrom {a : List Char} (ha : WholeLines a) (hne : a ≠ []) (position : Nat) :
    position + byteLength a ∈ startsFrom position a := by
  have hlast := ha _ (List.getLast?_eq_some_getLast hne)
  obtain ⟨l, hl⟩ : ∃ l, a = l ++ ['\n'] :=
    ⟨a.dropLast, by rw [← hlast, List.dropLast_append_getLast]⟩
  rw [hl, startsFrom_append, byteLength_append, ← Nat.add_assoc]
  exact List.mem_append_right _ List.mem_cons_self

section Insertion

variable {a b c : List Char} (ha : WholeLines a) (hc : '\n' ∉ c)

theorem lineOfOffset_ofList (cs : List Char) (o : Nat) :
    (ofText (String.ofList cs)).lineOfOffset o = (startsFrom 0 cs).countP (· ≤ o) + 1 := by
  rw [lineOfOffset, ofText, String.toList_ofList, List.countP_cons_of_pos (by simp)]

theorem countP_startsFrom_eq_zero {o position : Nat} {cs : List Char} (h : o ≤ position) :
    (startsFrom position cs).countP (· ≤ o) = 0 := by
  refine List.countP_eq_zero.mpr fun start hstart => ?_
  have := lt_of_mem_startsFrom hstart
  simp only [decide_eq_true_eq]
  omega

theorem countP_startsFrom_eq_count {o : Nat} {cs : List Char} (h : byteLength cs ≤ o) :
    (startsFrom 0 cs).countP (· ≤ o) = cs.count '\n' := by
  rw [← length_startsFrom 0 cs, List.countP_eq_length]
  intro start hstart
  have := le_of_mem_startsFrom hstart
  simp only [decide_eq_true_eq]
  omega

theorem startsFrom_insert (hc : '\n' ∉ c) : startsFrom 0 (a ++ (c ++ ['\n']) ++ b) =
    startsFrom 0 a ++ (byteLength a + byteLength (c ++ ['\n'])) ::
      (startsFrom (byteLength a) b).map (· + byteLength (c ++ ['\n'])) := by
  have hline : startsFrom (byteLength a) (c ++ ['\n']) =
      [byteLength a + byteLength (c ++ ['\n'])] := by
    have hnone : startsFrom (byteLength a) c = [] := by
      rw [← List.length_eq_zero_iff, length_startsFrom, List.count_eq_zero.mpr hc]
    rw [startsFrom_append, hnone, byteLength_append, ← Nat.add_assoc]
    rfl
  rw [startsFrom_append 0 (a ++ (c ++ ['\n'])) b, startsFrom_append 0 a (c ++ ['\n']),
    Nat.zero_add, Nat.zero_add, hline, byteLength_append a, startsFrom_add, List.append_assoc]
  rfl

include ha

/-- Before the end of whole lines the last of them is not yet passed. -/
theorem countP_startsFrom_lt_count {o : Nat} (h : o < byteLength a) :
    (startsFrom 0 a).countP (· ≤ o) < a.count '\n' := by
  have hne : a ≠ [] := by
    rintro rfl
    cases h
  refine Nat.lt_of_le_of_ne (length_startsFrom 0 a ▸ List.countP_le_length) fun heq => ?_
  rw [← length_startsFrom 0 a, List.countP_eq_length] at heq
  have := heq _ (mem_startsFrom ha hne 0)
  simp only [decide_eq_true_eq] at this
  omega

include hc

/-- A line that is put in moves lines as `shiftLine` says. -/
theorem lineOfOffset_insert {o o' : Nat}
    (h : MovedBy (byteLength a) (byteLength (c ++ ['\n'])) o o') :
    (ofText (String.ofList (a ++ (c ++ ['\n']) ++ b))).lineOfOffset o =
      shiftLine (a.count '\n' + 1) ((ofText (String.ofList (a ++ b))).lineOfOffset o') := by
  rw [lineOfOffset_ofList, lineOfOffset_ofList, startsFrom_insert hc, startsFrom_append,
    Nat.zero_add, List.countP_append, List.countP_cons, List.countP_append, List.countP_map]
  rw [MovedBy] at h
  by_cases hlt : o' < byteLength a
  · rw [if_pos hlt] at h
    subst h
    have hbefore := countP_startsFrom_lt_count ha hlt
    have hfar : List.countP ((fun x => decide (x ≤ o)) ∘ (· + byteLength (c ++ ['\n'])))
        (startsFrom (byteLength a) b) = 0 := by
      refine List.countP_eq_zero.mpr fun start hstart => ?_
      have := lt_of_mem_startsFrom hstart
      simp only [Function.comp_apply, decide_eq_true_eq]
      omega
    rw [countP_startsFrom_eq_zero (Nat.le_of_lt hlt), hfar, shiftLine_of_lt (by omega),
      if_neg (by rw [decide_eq_true_eq]; omega)]
  · rw [if_neg hlt] at h
    subst h
    have hbehind : List.countP ((fun x => decide (x ≤ o' + byteLength (c ++ ['\n']))) ∘
        (· + byteLength (c ++ ['\n']))) (startsFrom (byteLength a) b) =
        (startsFrom (byteLength a) b).countP (· ≤ o') := by
      refine List.countP_congr fun start _ => ?_
      simp only [Function.comp_apply, decide_eq_true_eq]
      omega
    rw [hbehind, countP_startsFrom_eq_count (by omega), countP_startsFrom_eq_count (by omega),
      shiftLine_of_le (by omega), if_pos (by rw [decide_eq_true_eq]; omega), ← Nat.add_assoc]

end Insertion

end LineIndex

/-! ### Blanked out and left out -/

section Texts

variable {a : List Char} (ha : WholeLines a) (b : List Char)
include ha

theorem mask_append : mask (a ++ b) = mask a ++ mask b := by
  rw [mask, pieces_append ha, List.flatMap_append, ← mask, ← mask]

theorem lines_append : lines (a ++ b) = lines a ++ lines b := by
  rw [lines, pieces_append ha, List.map_append, ← lines, ← lines]

theorem keptLines_append : keptLines (a ++ b) = keptLines a ++ keptLines b := by
  rw [keptLines, lines_append ha, List.filter_append, ← keptLines, ← keptLines]

theorem length_lines : (lines a).length = a.count '\n' := by
  rw [lines, List.length_map, length_pieces ha]

theorem keptNumbers_append (n : Nat) :
    keptNumbers n (a ++ b) = keptNumbers n a ++ keptNumbers (n + a.count '\n') b := by
  rw [keptNumbers, lines_append ha, List.zipIdx_append, List.filterMap_append, length_lines ha,
    ← keptNumbers, ← keptNumbers]

end Texts

theorem mem_keptNumbers {n m : Nat} {cs : List Char} (h : m ∈ keptNumbers n cs) :
    n ≤ m ∧ m < n + (lines cs).length := by
  obtain ⟨⟨line, number⟩, hmem, hnumber⟩ := List.mem_filterMap.mp h
  dsimp only at hnumber
  split at hnumber
  · cases hnumber
  · obtain rfl := Option.some.inj hnumber
    exact ⟨List.le_snd_of_mem_zipIdx hmem, List.snd_lt_add_of_mem_zipIdx hmem⟩

theorem keptNumbers_succ (n : Nat) (cs : List Char) :
    keptNumbers (n + 1) cs = (keptNumbers n cs).map (· + 1) := by
  rw [keptNumbers, keptNumbers, List.zipIdx_succ, List.filterMap_map, List.map_filterMap]
  congr 1
  funext p
  cases p with | mk line number =>
  dsimp only [Function.comp_apply]
  split <;> rfl

section Inserted

variable {a c : List Char} (ha : WholeLines a) (hc : '\n' ∉ c) (hcomment : isCommentLine c = true)
  (b : List Char)
include ha hc hcomment

theorem mask_insert :
    mask (a ++ (c ++ ['\n']) ++ b) = mask a ++ (blankOut (c ++ ['\n']) ++ mask b) := by
  rw [List.append_assoc, mask_append ha, ← List.append_cons, mask_line hc, if_pos hcomment]

theorem keptLines_insert : keptLines (a ++ (c ++ ['\n']) ++ b) = keptLines (a ++ b) := by
  rw [List.append_assoc, keptLines_append ha, ← List.append_cons, keptLines_line hc,
    if_pos hcomment, ← keptLines_append ha]

theorem keptNumbers_insert : keptNumbers 1 (a ++ (c ++ ['\n']) ++ b) =
    (keptNumbers 1 (a ++ b)).map (shiftLine (a.count '\n' + 1)) := by
  rw [List.append_assoc, keptNumbers_append ha, ← List.append_cons, keptNumbers_line hc,
    if_pos hcomment, keptNumbers_append ha, List.map_append, keptNumbers_succ (1 + _)]
  have hlength := length_lines ha
  refine congrArg₂ _ ?_ ?_
  · refine ((List.map_congr_left fun m hm => ?_).trans (List.map_id _)).symm
    have hbound := (mem_keptNumbers hm).2
    exact shiftLine_of_lt (by omega)
  · refine List.map_congr_left fun m hm => ?_
    have hbound := (mem_keptNumbers hm).1
    exact (shiftLine_of_le (by omega)).symm

end Inserted

theorem keptLine_map_shiftLine {k : Nat} (hk : 0 < k) (kept : List Nat) (n : Nat) :
    keptLine (kept.map (shiftLine k)) n = shiftLine k (keptLine kept n) := by
  have hzero : shiftLine k 0 = 0 := shiftLine_of_lt hk
  cases n with
  | zero => exact hzero.symm
  | succ n =>
    rw [keptLine, keptLine, List.getElem?_map]
    cases kept[n]? with
    | none => exact hzero.symm
    | some m => rfl

/-! ## Reading the text with the line -/

theorem eq_of_append_eq_append {a b a' b' : List Char} (h : a ++ b = a' ++ b')
    (hlength : byteLength a = byteLength a') : a = a' := by
  obtain ⟨r, rfl, -⟩ | ⟨r, rfl, -⟩ := List.append_eq_append_iff.mp h
  · rw [byteLength_append] at hlength
    rw [eq_nil_of_byteLength (w := r) (by omega), List.append_nil]
  · rw [byteLength_append] at hlength
    rw [eq_nil_of_byteLength (w := r) (by omega), List.append_nil]

/-- No quoted string starts with a line feed right before line `k`. -/
def OpensNoString (k : Nat) (source : String) : Prop :=
  ∀ l ∈ lexemes (maskCommentLines source), ['"', '\n'] <+: l.text.toList →
    l.offset + 2 ≠ byteLength (linesBefore k source.toList)

instance (k : Nat) (source : String) : Decidable (OpensNoString k source) :=
  inferInstanceAs (Decidable (∀ l ∈ _, _ → _))

section Reading

variable {a b c : List Char} (ha : WholeLines a) (hc : '\n' ∉ c)
  (hcomment : isCommentLine c = true)
include ha hc hcomment

/-- Blanked out the line is white space between two lines. -/
theorem thins_mask_insert :
    Thins (MovedBy (byteLength a) (byteLength (c ++ ['\n']))) true 0 0
      (mask (a ++ (c ++ ['\n']) ++ b)) (mask (a ++ b)) := by
  have hbehind : ∀ fresh, Thins (MovedBy (byteLength a) (byteLength (c ++ ['\n']))) fresh
      (byteLength a + byteLength (c ++ ['\n'])) (byteLength a) (mask b) (mask b) := by
    intro fresh
    rw [← List.append_nil (mask b)]
    refine thins_keep (fun u v _ _ => ?_) .nil
    rw [MovedBy, if_neg (by omega), Nat.add_right_comm]
  rw [mask_insert ha hc hcomment, mask_append ha]
  refine thins_keep (fun u v hu hv => ?_) ?_
  · have hlength : 0 < byteLength v := Nat.pos_of_ne_zero fun h => hv (eq_nil_of_byteLength h)
    rw [← byteLength_mask, hu, byteLength_append, MovedBy, if_pos (by omega)]
  · have hfresh : (mask a).getLast?.elim true (· == '\n') = true := by
      have hwhole := wholeLines_mask ha
      cases hlast : (mask a).getLast? with
      | none => rfl
      | some d => exact beq_iff_eq.mpr (hwhole d hlast)
    rw [hfresh, byteLength_mask]
    refine thins_drop (fun d hd => isFill_of_mem_blankOut hd) (.inl rfl) ?_
    rw [byteLength_blankOut, Nat.zero_add]
    exact hbehind true

omit hc hcomment

/-- A line feed behind a quote stays where it is, unless the line is put in behind it. -/
theorem rigid_movedBy {n : Nat} {l : Lexeme} (hl : l ∈ lexemesFrom 0 0 (mask (a ++ b)))
    (hopens : ['"', '\n'] <+: l.text.toList) (hne : l.offset + 2 ≠ byteLength a) :
    Rigid (MovedBy (byteLength a) n) l.offset := by
  -- The line cannot be put in between the two, because there no line ends.
  have hbetween : l.offset + 1 ≠ byteLength a := by
    intro heq
    obtain ⟨x, y, htext, hoffset⟩ := exists_append_of_mem_lexemesFrom hl
    obtain ⟨rest, hrest⟩ := hopens
    have hsplit : mask a ++ mask b = (x ++ ['"']) ++ ('\n' :: (rest ++ y)) := by
      rw [← mask_append ha, htext, ← hrest]
      simp
    have hfront : mask a = x ++ ['"'] := by
      refine eq_of_append_eq_append hsplit ?_
      rw [byteLength_mask, ← heq, hoffset, byteLength_append, Nat.zero_add]
      rfl
    have hlast := wholeLines_mask ha '"' (by rw [hfront, List.getLast?_concat]; rfl)
    exact absurd hlast (by decide)
  rintro o p rfl
  refine ⟨?_, ?_⟩
  · rintro rfl
    split <;> split <;> omega
  · rintro rfl
    split <;> split <;> omega

end Reading

end SchemaLint.Source

namespace SchemaLint

open Text Sdl Source Federation Rule

/-! ## Documents -/

theorem lineOfOffset_parse (path source : String) (o : Nat) :
    (SchemaDocument.parse path source).lineOfOffset o =
      (LineIndex.ofText source).lineOfOffset o := by
  rw [lineOfOffset_eq, parse_source]

/-- Strings that are both capitalized or both not, at offsets that are moved. -/
def movedLikeness (p n : Nat) : Likeness :=
  ⟨fun v w => isCapitalized v = isCapitalized w, MovedBy p n⟩

section Inserted

variable {path source comment : String} {k : Nat} (hk : k ≤ source.toList.count '\n' + 1)
  (hcomment : isCommentLine comment.toList = true) (hline : '\n' ∉ comment.toList)
include hk hcomment hline

/-- The schema with the line is read to the same definitions, moved. -/
theorem read_insertLine (hopens : OpensNoString k source)
    (h : (read (maskCommentLines source)).faults = []) :
    let L := movedLikeness (byteLength (linesBefore k source.toList))
      (byteLength (comment.toList ++ ['\n']))
    (read (maskCommentLines (insertLine k comment source))).faults = [] ∧
      List.Forall₂ L.Definitions
        (read (maskCommentLines (insertLine k comment source))).definitions
        (read (maskCommentLines source)).definitions := by
  intro L
  have hwhole := (wholeLines_linesBefore hk).1
  have hsource := linesBefore_append_linesFrom k source.toList
  have hthins : Thins L.offset true 0 0 (maskCommentLines (insertLine k comment source)).toList
      (maskCommentLines source).toList := by
    have hthins := thins_mask_insert (b := linesFrom k source.toList) hwhole hline hcomment
    rw [hsource] at hthins
    rwa [toList_maskCommentLines, toList_maskCommentLines, insertLine, String.toList_ofList]
  have hending : L.offset (maskCommentLines (insertLine k comment source)).utf8ByteSize
      (maskCommentLines source).utf8ByteSize := by
    have hbytes : source.utf8ByteSize =
        byteLength (linesBefore k source.toList) + byteLength (linesFrom k source.toList) := by
      rw [← byteLength_append, hsource, byteLength_toList]
    rw [utf8ByteSize_maskCommentLines, utf8ByteSize_maskCommentLines, hbytes, insertLine,
      ← byteLength_toList, String.toList_ofList, byteLength_append, byteLength_append]
    show _ = _
    rw [if_neg (by omega), Nat.add_right_comm]
  refine read_of_thins_rigid (fun a b hab => hab.isCapitalized_eq) hthins hending
    (fun l hl hquote => ?_) h
  refine rigid_movedBy (b := linesFrom k source.toList) hwhole ?_ hquote (hopens l hl hquote)
  rwa [hsource, ← toList_maskCommentLines]

theorem documentsAlike_insertLine (hopens : OpensNoString k source)
    (h : (read (maskCommentLines source)).faults = []) (hpos : 0 < k) :
    DocumentsAlike (movedLikeness (byteLength (linesBefore k source.toList))
        (byteLength (comment.toList ++ ['\n'])))
      (fun n' n => n' = shiftLine k n) (.parse path (insertLine k comment source))
      (.parse path source) where
  definitions := by
    rw [parse_definitions, parse_definitions]
    exact (read_insertLine hk hcomment hline hopens h).2
  lineOfOffset := by
    intro o o' hmoved
    obtain ⟨hwhole, hcount⟩ := wholeLines_linesBefore hk
    have hlines :=
      LineIndex.lineOfOffset_insert (b := linesFrom k source.toList) hwhole hline hmoved
    rw [linesBefore_append_linesFrom, String.ofList_toList, hcount, Nat.sub_add_cancel hpos]
      at hlines
    rw [lineOfOffset_parse, lineOfOffset_parse, insertLine]
    exact hlines
  isCapitalized := fun _ _ hvalue => hvalue

/-- The check of composition does not see the line, but for the numbers of lines. -/
theorem forall₂_composition_insertLine (hpos : 0 < k) :
    List.Forall₂ (FindingsAlike fun n' n => n' = shiftLine k n)
      (composition.findings (.parse path (insertLine k comment source)))
      (composition.findings (.parse path source)) := by
  obtain ⟨hwhole, hcount⟩ := wholeLines_linesBefore hk
  have hsource := linesBefore_append_linesFrom k source.toList
  have hstrip : stripCommentLines (insertLine k comment source) = stripCommentLines source := by
    rw [← String.toList_inj, toList_stripCommentLines, toList_stripCommentLines, insertLine,
      String.toList_ofList, strip, keptLines_insert hwhole hline hcomment, hsource, ← strip]
  have hkept : keptLineNumbers (insertLine k comment source) =
      (keptLineNumbers source).map (shiftLine k) := by
    have hnumbers := keptNumbers_insert hwhole hline hcomment (linesFrom k source.toList)
    rw [hsource, hcount, Nat.sub_add_cancel hpos] at hnumbers
    have hinsert : keptLineNumbers (insertLine k comment source) =
        keptNumbers 1 (insertLine k comment source).toList := rfl
    rw [hinsert, insertLine, String.toList_ofList]
    exact hnumbers
  rw [composition_findings, composition_findings, parse_source, parse_source, hstrip, hkept]
  refine List.rel_map (R := Eq) (fun e e' he => ?_) (List.forall₂_refl _)
  subst he
  exact ⟨rfl, rfl, keptLine_map_shiftLine hpos _ _⟩

end Inserted

/-! ## Reports -/

/-- What a line put in before line `k` makes of a diagnostic. Where undefined types are
used is searched in the text, and the rules on the whole file point at its first line. -/
structure Diagnostic.Carried (k : Nat) (d d' : Diagnostic) : Prop where
  message : d'.message = d.message
  value : d'.value = d.value
  line : d.ruleId ≠ undefinedType.id → d.ruleId ∉ fileRules → d'.line = shiftLine k d.line

/-- Findings that match are reported as diagnostics that are carried over. -/
theorem carried_of_findingsAlike {k : Nat} {doc doc' : SchemaDocument} {rule : Rule}
    (hrule : rule ∈ catalogue) {line : Nat → Nat → Prop}
    (hline : rule.id ≠ undefinedType.id → rule.id ∉ fileRules →
      ∀ n' n, line n' n → n' = shiftLine k n)
    (h : List.Forall₂ (FindingsAlike line) (rule.findings doc') (rule.findings doc)) :
    List.Forall₂ (Diagnostic.Carried k) (rule.check doc) (rule.check doc') := by
  have hcolon := catalogue_ids_no_colon rule.id (List.mem_map_of_mem hrule)
  rw [Rule.check, Rule.check, SchemaDocument.diagnostics_eq_map, SchemaDocument.diagnostics_eq_map]
  refine List.rel_map (fun f g hf => ⟨?_, hf.value, fun hother hfile => ?_⟩) h.flip
  · exact congrArg (rule.id ++ ": " ++ ·) hf.text
  · have hid : (doc.diagnostic rule.id f).ruleId = rule.id := ruleId_make hcolon _ _ _ _ _
    rw [hid] at hother hfile
    exact hline hother hfile _ _ hf.line

theorem forall₂_flatMap_of_mem {α β γ : Type} {R : β → γ → Prop} {f : α → List β} {g : α → List γ}
    {l : List α} (h : ∀ x ∈ l, List.Forall₂ R (f x) (g x)) :
    List.Forall₂ R (l.flatMap f) (l.flatMap g) := by
  induction l with
  | nil => exact .nil
  | cons x l ih =>
    rw [List.forall_mem_cons] at h
    exact List.rel_append h.1 (ih h.2)

theorem carried_check_insertLine {path source comment : String} {k : Nat} (hpos : 0 < k)
    (hk : k ≤ source.toList.count '\n' + 1) (hcomment : isCommentLine comment.toList = true)
    (hline : '\n' ∉ comment.toList) (hopens : OpensNoString k source)
    (h : (read (maskCommentLines source)).faults = []) {rule : Rule} (hrule : rule ∈ catalogue) :
    List.Forall₂ (Diagnostic.Carried k) (rule.check (.parse path source))
      (rule.check (.parse path (insertLine k comment source))) := by
  have halike := @documentsAlike_insertLine path _ _ _ hk hcomment hline hopens h hpos
  by_cases hfile : rule.id ∈ fileRules
  · have hsame : List.Forall₂ (FindingsAlike fun _ _ => True)
        (rule.findings (.parse path (insertLine k comment source)))
        (rule.findings (.parse path source)) := by
      rw [findings_eq_of_mem_fileRules halike hrule hfile]
      exact List.forall₂_same.mpr fun f _ => ⟨rfl, rfl, trivial⟩
    exact carried_of_findingsAlike hrule (fun _ hnot => absurd hfile hnot) hsame
  by_cases hother : rule.id = undefinedType.id
  · have hsame := forall₂_undefinedType halike
    rw [← catalogue_ext hrule (by simp [catalogue]) hother] at hsame
    exact carried_of_findingsAlike hrule (fun hnot => absurd hother hnot) hsame
  by_cases hcomposition : rule.id = composition.id
  · refine carried_of_findingsAlike hrule (fun _ _ _ _ hshift => hshift) ?_
    rw [catalogue_ext hrule (by simp [catalogue]) hcomposition]
    exact forall₂_composition_insertLine hk hcomment hline hpos
  · exact carried_of_findingsAlike hrule (fun _ _ _ _ hshift => hshift)
      (respects_of_mem_catalogue hrule hfile hother hcomposition halike)

/-- Putting a comment line into a schema without syntax errors carries all diagnostics
over, in their order, unless the line breaks a quoted string that starts with a line
feed. -/
theorem lintSource_insertLine {path source comment : String} {k : Nat} (hpos : 1 ≤ k)
    (hk : k ≤ (SchemaDocument.parse path source).lineCount)
    (hcomment : isCommentLine comment.toList = true) (hline : '\n' ∉ comment.toList)
    (h : (SchemaDocument.parse path source).syntaxErrors = []) (hopens : OpensNoString k source) :
    List.Forall₂ (Diagnostic.Carried k) (lintSource path source {}).diagnostics
      (lintSource path (insertLine k comment source) {}).diagnostics := by
  rw [parse_lineCount] at hk
  have hread := syntaxErrors_eq_nil_iff.mp h
  have hinserted : (SchemaDocument.parse path (insertLine k comment source)).syntaxErrors = [] :=
    syntaxErrors_eq_nil_iff.mpr (read_insertLine hk hcomment hline hopens hread).1
  rw [lintSource_default_diagnostics, lintSource_default_diagnostics]
  refine List.rel_append ?_ (forall₂_flatMap_of_mem fun rule hrule =>
    carried_check_insertLine hpos hk hcomment hline hopens hread hrule)
  rw [SchemaDocument.syntaxDiagnostics, SchemaDocument.syntaxDiagnostics, h, hinserted]
  exact .nil

/-- A comment line within the description of a type. -/
theorem lintSource_insertLine_inDescription :
    OpensNoString 2 "\"\"\"\nthe root\n\"\"\"\ntype Query \x7b a: Int \x7d" ∧
      List.Forall₂ (Diagnostic.Carried 2)
        (lintSource "schema.graphql"
          "\"\"\"\nthe root\n\"\"\"\ntype Query \x7b a: Int \x7d" {}).diagnostics
        (lintSource "schema.graphql" (insertLine 2 "  // The note"
          "\"\"\"\nthe root\n\"\"\"\ntype Query \x7b a: Int \x7d") {}).diagnostics := by
  have hopens : OpensNoString 2 "\"\"\"\nthe root\n\"\"\"\ntype Query \x7b a: Int \x7d" := by
    decide +kernel
  refine ⟨hopens, lintSource_insertLine (by decide) ?_ (by decide) (by decide) ?_ hopens⟩
  · rw [parse_lineCount]
    decide
  · exact syntaxErrors_eq_nil (by decide +kernel) (by decide +kernel)

theorem exists_message_of_carried {k : Nat} {ds ds' : List Diagnostic}
    (h : List.Forall₂ (Diagnostic.Carried k) ds ds') {d' : Diagnostic} (hd' : d' ∈ ds') :
    ∃ d ∈ ds, d'.message = d.message := by
  induction h with
  | nil => cases hd'
  | cons hcarried _ ih =>
    obtain rfl | hd' := List.mem_cons.mp hd'
    · exact ⟨_, List.mem_cons_self, hcarried.message⟩
    · obtain ⟨d, hd, hmessage⟩ := ih hd'
      exact ⟨d, List.mem_cons_of_mem _ hd, hmessage⟩

/-- A comment line behind the line feed that a quoted string starts with makes a syntax
error. -/
theorem lintSource_insertLine_inString :
    (SchemaDocument.parse "schema.graphql"
      "type Query @key(fields: \"\na\") \x7b a: Int \x7d").syntaxErrors = [] ∧
    ¬ List.Forall₂ (Diagnostic.Carried 2)
      (lintSource "schema.graphql"
        "type Query @key(fields: \"\na\") \x7b a: Int \x7d" {}).diagnostics
      (lintSource "schema.graphql" (insertLine 2 "//"
        "type Query @key(fields: \"\na\") \x7b a: Int \x7d") {}).diagnostics := by
  have hsource : (SchemaDocument.parse "schema.graphql"
      "type Query @key(fields: \"\na\") \x7b a: Int \x7d").syntaxErrors = [] :=
    syntaxErrors_eq_nil (by decide +kernel) (by decide +kernel)
  have hinserted : (SchemaDocument.parse "schema.graphql" (insertLine 2 "//"
      "type Query @key(fields: \"\na\") \x7b a: Int \x7d")).syntaxErrors ≠ [] := by
    rw [ne_eq, syntaxErrors_eq_nil_iff, read_faults_eq_nil_iff]
    exact fun h => absurd h.1 (by decide +kernel)
  have hnone : Config.suppressions {} = [] := rfl
  refine ⟨hsource, fun hcarried => ?_⟩
  obtain ⟨d', hd', hid⟩ := (exists_ruleId_syntaxErrorRule_iff hnone _ _).mpr hinserted
  obtain ⟨d, hd, hmessage⟩ := exists_message_of_carried hcarried hd'
  refine (exists_ruleId_syntaxErrorRule_iff hnone _ _).mp ⟨d, hd, ?_⟩ hsource
  rw [← hid, Diagnostic.ruleId, Diagnostic.ruleId, hmessage]

end SchemaLint
