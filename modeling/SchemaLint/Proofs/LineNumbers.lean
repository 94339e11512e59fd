import SchemaLint.Proofs.ByteOrder
import SchemaLint.Proofs.CommentInsertion

/-!
# Lines by number

The index of a text knows where its lines start, and looks an offset up among the starts.
Three other ways of numbering lines agree with it: counting the line feeds among the bytes
before an offset, searching the starts by halves, and cutting the text into lines.
-/

namespace SchemaLint.Source

open Text

/-! ## Line feeds among bytes -/

/-- The byte of a line feed. -/
def lineFeed : UInt8 := 10

/-- No byte of another character looks like a line feed. -/
theorem count_lineFeed_utf8EncodeChar (c : Char) :
    (String.utf8EncodeChar c).count lineFeed = if c = '\n' then 1 else 0 := by
  split
  · next h =>
    subst h
    decide
  · next h =>
    have hne : c.val.toNat ≠ 10 := fun hc => h (Char.ext (UInt32.toNat_inj.mp hc))
    rw [List.count_eq_zero, String.utf8EncodeChar]
    generalize c.val.toNat = v at hne
    split_ifs <;>
      simp only [lineFeed, List.mem_cons, List.not_mem_nil, or_false, not_or, ← UInt8.toNat_inj,
        UInt8.toNat_ofNat', UInt8.reduceToNat] <;>
      omega

theorem count_lineFeed_flatMap (cs : List Char) :
    (cs.flatMap String.utf8EncodeChar).count lineFeed = cs.count '\n' := by
  induction cs with
  | nil => rfl
  | cons c cs ih =>
    rw [List.flatMap_cons, List.count_append, count_lineFeed_utf8EncodeChar, ih, List.count_cons,
      Nat.add_comm]
    simp only [beq_iff_eq]

namespace LineIndex

/-! ## The starts -/

/-- No line starts inside the first character. -/
theorem le_of_mem_startsFrom_cons {position start : Nat} {c : Char} {cs : List Char}
    (h : start ∈ startsFrom position (c :: cs)) : position + c.utf8Size ≤ start := by
  rw [startsFrom] at h
  split at h
  · rcases List.mem_cons.mp h with rfl | h
    · exact Nat.le_refl _
    · exact Nat.le_of_lt (lt_of_mem_startsFrom h)
  · exact Nat.le_of_lt (lt_of_mem_startsFrom h)

/-- The starts up to an offset are counted by the line feeds among the bytes before it. The
offset may lie inside a character, which is then no line feed. -/
theorem countP_startsFrom_eq_count_take (position o : Nat) (cs : List Char) :
    (startsFrom position cs).countP (· ≤ position + o) =
      ((cs.flatMap String.utf8EncodeChar).take o).count lineFeed := by
  induction cs generalizing position o with
  | nil => simp [startsFrom]
  | cons c cs ih =>
    have hsize := String.length_utf8EncodeChar c
    have hcount := count_lineFeed_utf8EncodeChar c
    rw [List.flatMap_cons, List.take_append, hsize, List.count_append]
    by_cases ho : c.utf8Size ≤ o
    · have hrest := ih (position + c.utf8Size) (o - c.utf8Size)
      rw [Nat.add_assoc, Nat.add_sub_cancel' ho] at hrest
      rw [List.take_of_length_le (hsize ▸ ho), hcount, ← hrest, startsFrom]
      split
      · rw [List.countP_cons_of_pos (by simpa using ho), Nat.add_comm]
      · rw [Nat.zero_add]
    · have hbefore : (startsFrom position (c :: cs)).countP (· ≤ position + o) = 0 := by
        refine List.countP_eq_zero.mpr fun start hstart => ?_
        have := le_of_mem_startsFrom_cons hstart
        simp only [decide_eq_true_eq]
        omega
      have hinside : ((String.utf8EncodeChar c).take o).count lineFeed = 0 := by
        by_cases hc : c = '\n'
        · have hzero : o = 0 := by
            subst hc
            exact Nat.lt_one_iff.mp (Nat.not_le.mp ho)
          rw [hzero, List.take_zero, List.count_nil]
        · rw [if_neg hc] at hcount
          exact Nat.le_zero.mp (hcount ▸ (List.take_sublist o _).count_le lineFeed)
      rw [hbefore, hinside, Nat.sub_eq_zero_of_le (Nat.le_of_not_le ho), List.take_zero,
        List.count_nil]

theorem startsFrom_pairwise (position : Nat) (cs : List Char) :
    (startsFrom position cs).Pairwise (· < ·) := by
  induction cs generalizing position with
  | nil => exact .nil
  | cons c cs ih =>
    rw [startsFrom]
    split
    · exact .cons (fun start => lt_of_mem_startsFrom) (ih _)
    · exact ih _

theorem starts_pairwise (text : String) : (ofText text).starts.Pairwise (· < ·) :=
  .cons (fun _ => lt_of_mem_startsFrom) (startsFrom_pairwise 0 text.toList)

/-- In increasing order the elements up to a bound are the first ones. -/
theorem le_iff_length_lt_countP {a b : List Nat} {s : Nat}
    (h : (a ++ s :: b).Pairwise (· < ·)) (o : Nat) :
    s ≤ o ↔ a.length < (a ++ s :: b).countP (· ≤ o) := by
  obtain ⟨-, hb, ha⟩ := List.pairwise_append.mp h
  rw [List.countP_append]
  by_cases hle : s ≤ o
  · have hall : a.countP (· ≤ o) = a.length := by
      refine List.countP_eq_length.mpr fun x hx => decide_eq_true ?_
      exact Nat.le_trans (Nat.le_of_lt (ha x hx s List.mem_cons_self)) hle
    rw [hall, List.countP_cons_of_pos (by simpa using hle)]
    omega
  · have hnone : (s :: b).countP (· ≤ o) = 0 := by
      refine List.countP_eq_zero.mpr fun y hy => ?_
      have hsy : s ≤ y := by
        rcases List.mem_cons.mp hy with rfl | hy
        · exact Nat.le_refl _
        · exact Nat.le_of_lt (List.rel_of_pairwise_cons hb hy)
      simp only [decide_eq_true_eq]
      omega
    have hfew : a.countP (· ≤ o) ≤ a.length := List.countP_le_length
    omega

theorem le_iff_lt_countP {xs : List Nat} (h : xs.Pairwise (· < ·)) {i s : Nat}
    (hs : xs[i]? = some s) (o : Nat) : s ≤ o ↔ i < xs.countP (· ≤ o) := by
  obtain ⟨hi, hget⟩ := List.getElem?_eq_some_iff.mp hs
  have hsplit : xs = xs.take i ++ s :: xs.drop (i + 1) := by
    rw [← hget, ← List.drop_eq_getElem_cons hi, List.take_append_drop]
  have hfirst := le_iff_length_lt_countP (hsplit ▸ h) o
  rwa [← hsplit, List.length_take_of_le (Nat.le_of_lt hi)] at hfirst

/-! ## The search by halves -/

/-- The loop of a binary search. Of the `size` places from `base` on it keeps the half that
holds the last element up to `x`. -/
def narrow (xs : List Nat) (x base size : Nat) : Nat :=
  if 1 < size then
    if x < xs.getD (base + size / 2) 0 then narrow xs x base (size - size / 2)
    else narrow xs x (base + size / 2) (size - size / 2)
  else base
termination_by size

/-- Where a search ends: at the element, or at the place where it could be put in. -/
inductive Hit
  | found (place : Nat)
  | missing (place : Nat)

def binarySearch (xs : List Nat) (x : Nat) : Hit :=
  let base := narrow xs x 0 xs.length
  match xs[base]? with
  | none => .missing 0
  | some y => if y = x then .found base else if y < x then .missing (base + 1) else .missing base

/-- The number of the line that the place of an offset among the starts stands for. -/
def Hit.line : Hit → Nat
  | .found place => place + 1
  | .missing place => place - 1 + 1

theorem getD_le_iff {xs : List Nat} (h : xs.Pairwise (· < ·)) {i : Nat} (hi : i < xs.length)
    (x : Nat) : xs.getD i 0 ≤ x ↔ i < xs.countP (· ≤ x) := by
  refine le_iff_lt_countP h ?_ x
  rw [List.getD_eq_getElem?_getD, List.getElem?_eq_getElem hi]
  rfl

/-- A window that begins no later than the last element up to `x`, and ends no earlier, is
narrowed to that element. -/
theorem narrow_eq {xs : List Nat} (h : xs.Pairwise (· < ·)) {x base size : Nat}
    (hsize : 0 < size) (hfits : base + size ≤ xs.length)
    (hbase : base = 0 ∨ base < xs.countP (· ≤ x)) (hend : xs.countP (· ≤ x) ≤ base + size) :
    narrow xs x base size = xs.countP (· ≤ x) - 1 := by
  fun_induction narrow xs x base size with
  | case1 base size hmore hlt ih =>
    have hmiddle := getD_le_iff h (i := base + size / 2) (by omega) x
    exact ih (by omega) (by omega) hbase (by omega)
  | case2 base size hmore hle ih =>
    have hmiddle := getD_le_iff h (i := base + size / 2) (by omega) x
    exact ih (by omega) (by omega) (by omega) (by omega)
  | case3 base size hmore => omega

/-- Where there is an element up to `x`, halving finds the last one. -/
theorem line_binarySearch {xs : List Nat} (h : xs.Pairwise (· < ·)) {x : Nat}
    (hpos : 0 < xs.countP (· ≤ x)) : (binarySearch xs x).line = xs.countP (· ≤ x) := by
  have hlength : xs.countP (· ≤ x) ≤ xs.length := List.countP_le_length
  have hbase : narrow xs x 0 xs.length = xs.countP (· ≤ x) - 1 :=
    narrow_eq h (by omega) (by omega) (.inl rfl) (by omega)
  obtain ⟨y, hy⟩ : ∃ y, xs[xs.countP (· ≤ x) - 1]? = some y :=
    ⟨_, List.getElem?_eq_getElem (by omega)⟩
  have hle : y ≤ x := (le_iff_lt_countP h hy x).mpr (by omega)
  rw [binarySearch, hbase, hy]
  dsimp only
  split
  · rw [Hit.line]
    omega
  · next hne =>
    rw [if_pos (Nat.lt_of_le_of_ne hle hne), Hit.line]
    omega

/-! ## Numbers and starts -/

section OfText

variable (text : String)

theorem lineOfOffset_eq_count_take (o : Nat) :
    (ofText text).lineOfOffset o = 1 + ((bytes text).take o).count lineFeed := by
  have hcount := countP_startsFrom_eq_count_take 0 o text.toList
  rw [Nat.zero_add] at hcount
  rw [bytes_eq_flatMap, ← hcount, lineOfOffset, ofText, List.countP_cons_of_pos (by simp),
    Nat.add_comm]

theorem lineCount_eq_count : (ofText text).lineCount = 1 + (bytes text).count lineFeed := by
  rw [bytes_eq_flatMap, count_lineFeed_flatMap, lineCount_ofText, Nat.add_comm]

theorem lineOfOffset_pos (o : Nat) : 0 < (ofText text).lineOfOffset o := by
  rw [lineOfOffset_eq_count_take]
  omega

theorem lineOfOffset_le_lineCount (index : LineIndex) (o : Nat) :
    index.lineOfOffset o ≤ index.lineCount :=
  List.countP_le_length

theorem lineStart?_isSome_iff (index : LineIndex) (n : Nat) :
    (index.lineStart? n).isSome ↔ 1 ≤ n ∧ n ≤ index.lineCount := by
  cases n with
  | zero => simp [lineStart?]
  | succ n =>
    rw [lineStart?, ← Option.ne_none_iff_isSome, Ne, List.getElem?_eq_none_iff, lineCount]
    omega

/-- A line number tells what a line is: the lines whose start is not behind an offset are
those up to the line of the offset. -/
theorem lineStart?_le_iff {n s : Nat} (hs : (ofText text).lineStart? n = some s) (o : Nat) :
    s ≤ o ↔ n ≤ (ofText text).lineOfOffset o := by
  cases n with
  | zero => cases hs
  | succ n => exact le_iff_lt_countP (starts_pairwise text) hs o

theorem lineStart?_lt {m n s t : Nat} (hmn : m < n) (hs : (ofText text).lineStart? m = some s)
    (ht : (ofText text).lineStart? n = some t) : s < t := by
  cases m with
  | zero => cases hs
  | succ m =>
    cases n with
    | zero => cases ht
    | succ n =>
      obtain ⟨hm, rfl⟩ := List.getElem?_eq_some_iff.mp hs
      obtain ⟨hn, rfl⟩ := List.getElem?_eq_some_iff.mp ht
      exact List.pairwise_iff_getElem.mp (starts_pairwise text) m n hm hn (by omega)

/-- The line of an offset starts at or before it, and the next one behind it. -/
theorem exists_lineStart (o : Nat) :
    ∃ s, (ofText text).lineStart? ((ofText text).lineOfOffset o) = some s ∧ s ≤ o ∧
      ∀ t, (ofText text).lineStart? ((ofText text).lineOfOffset o + 1) = some t → o < t := by
  obtain ⟨s, hs⟩ := Option.isSome_iff_exists.mp ((lineStart?_isSome_iff (ofText text) _).mpr
    ⟨lineOfOffset_pos text o, lineOfOffset_le_lineCount _ o⟩)
  refine ⟨s, hs, (lineStart?_le_iff text hs o).mpr (Nat.le_refl _), fun t ht => ?_⟩
  have hnext := lineStart?_le_iff text ht o
  omega

theorem lineOfOffset_lineStart {n s : Nat} (hs : (ofText text).lineStart? n = some s) :
    (ofText text).lineOfOffset s = n := by
  refine Nat.le_antisymm ?_ ((lineStart?_le_iff text hs s).mp (Nat.le_refl s))
  by_contra hlt
  obtain ⟨t, ht, hle, -⟩ := exists_lineStart text s
  exact Nat.not_le.mpr (lineStart?_lt text (Nat.not_le.mp hlt) hs ht) hle

end OfText

end LineIndex

/-! ## Lines of a text -/

/-- The line behind `n` others of a text: what stands between the line feed before it and
its own line end, or the end of the text. -/
structure IsLine (text : List Char) (n : Nat) (before line ending after : List Char) : Prop where
  text_eq : text = before ++ (line ++ (ending ++ after))
  whole : WholeLines before
  count : before.count '\n' = n
  line : '\n' ∉ line
  ending : IsEnding ending ∨ ending = [] ∧ after = []

theorem exists_isLine {text line : List Char} {n : Nat} (h : (lines text)[n]? = some line) :
    ∃ before ending after, IsLine text n before line ending after := by
  induction text using line_induction generalizing n with
  | nil => simp at h
  | last l hl hne =>
    rw [lines_last hl hne] at h
    obtain ⟨rfl, rfl⟩ : n = 0 ∧ l = line := by simpa [List.getElem?_singleton] using h
    exact ⟨[], [], [], by simp, by simp [WholeLines], rfl, hl, .inr ⟨rfl, rfl⟩⟩
  | line l cs hl ih =>
    rw [lines_line hl] at h
    cases n with
    | zero =>
      obtain rfl : chomp (l ++ ['\n']) = line := by simpa using h
      obtain ⟨ending, hending, hline⟩ := chomp_line l
      refine ⟨[], ending, cs, ?_, by simp [WholeLines], rfl, ?_, .inl hending⟩
      · rw [List.nil_append, ← List.append_assoc, ← hline, List.append_assoc, List.singleton_append]
      · -- The one line feed of the piece is in its ending.
        have hcount := congrArg (List.count '\n') hline
        have hone : ending.count '\n' = 1 := by rcases hending with rfl | rfl <;> rfl
        rw [List.count_append, List.count_append, List.count_eq_zero.mpr hl, hone] at hcount
        exact List.count_eq_zero.mp (Nat.add_right_cancel hcount).symm
    | succ n =>
      obtain ⟨before, ending, after, hbefore⟩ := ih h
      refine ⟨l ++ '\n' :: before, ending, after, ?_, ?_, ?_, hbefore.line, hbefore.ending⟩
      · rw [hbefore.text_eq, List.append_assoc, List.cons_append]
      · exact (wholeLines_line l before).mpr hbefore.whole
      · rw [List.count_append, List.count_cons_self, List.count_eq_zero.mpr hl, hbefore.count,
          Nat.zero_add]

theorem lineOfOffset_of_toList {text : String} {a b : List Char} (h : text.toList = a ++ b) :
    (LineIndex.ofText text).lineOfOffset (byteLength a) = a.count '\n' + 1 := by
  rw [← LineIndex.lineOfOffset_append a b, ← h, String.ofList_toList]

namespace IsLine

variable {text : String} {n : Nat} {before line ending after : List Char}

theorem lineOfOffset_start (h : IsLine text.toList n before line ending after) :
    (LineIndex.ofText text).lineOfOffset (byteLength before) = n + 1 := by
  rw [lineOfOffset_of_toList h.text_eq, h.count]

theorem lineOfOffset_end (h : IsLine text.toList n before line ending after) :
    (LineIndex.ofText text).lineOfOffset (byteLength (before ++ line)) = n + 1 := by
  rw [lineOfOffset_of_toList (h.text_eq.trans (List.append_assoc before line _).symm),
    List.count_append, h.count, List.count_eq_zero.mpr h.line, Nat.add_zero]

theorem lineOfOffset_eq (h : IsLine text.toList n before line ending after) {o : Nat}
    (hstart : byteLength before ≤ o) (hend : o ≤ byteLength (before ++ line)) :
    (LineIndex.ofText text).lineOfOffset o = n + 1 :=
  Nat.le_antisymm (h.lineOfOffset_end ▸ LineIndex.lineOfOffset_mono _ hend)
    (h.lineOfOffset_start ▸ LineIndex.lineOfOffset_mono _ hstart)

theorem mem_starts (h : IsLine text.toList n before line ending after) :
    byteLength before ∈ (LineIndex.ofText text).starts := by
  by_cases hne : before = []
  · rw [hne]
    exact List.mem_cons_self
  · have hmem := LineIndex.mem_startsFrom h.whole hne 0
    rw [Nat.zero_add] at hmem
    rw [LineIndex.ofText, h.text_eq, LineIndex.startsFrom_append]
    exact List.mem_cons_of_mem _ (List.mem_append_left _ hmem)

/-- The start with the number of the line is where the line is. -/
theorem lineStart?_eq (h : IsLine text.toList n before line ending after) :
    (LineIndex.ofText text).lineStart? (n + 1) = some (byteLength before) := by
  -- It is among the starts, and the line of an offset tells at which place.
  obtain ⟨i, hi⟩ := List.getElem?_of_mem h.mem_starts
  have hstart : (LineIndex.ofText text).lineStart? (i + 1) = some (byteLength before) := hi
  rwa [← LineIndex.lineOfOffset_lineStart text hstart, h.lineOfOffset_start] at hstart

end IsLine

/-! ## The index -/

/-- The index numbers the lines of a text as counting, searching and cutting do. -/
structure LineIndex.Numbers (index : LineIndex) (text : String) : Prop where
  /-- Line feeds are counted among bytes; what lies behind the text is on its last line. -/
  lineOfOffset : ∀ o,
    index.lineOfOffset o = 1 + ((bytes text).take (min o (bytes text).length)).count lineFeed
  search : ∀ o, (LineIndex.binarySearch index.starts o).line = index.lineOfOffset o
  lineCount : index.lineCount = 1 + (bytes text).count lineFeed
  lineStart : ∀ n, (index.lineStart? n).isSome ↔ 1 ≤ n ∧ n ≤ index.lineCount
  increasing : ∀ m n s t, m < n → index.lineStart? m = some s → index.lineStart? n = some t → s < t
  line_of_start : ∀ n s, index.lineStart? n = some s → index.lineOfOffset s = n
  around : ∀ o, ∃ s, index.lineStart? (index.lineOfOffset o) = some s ∧ s ≤ o ∧
    ∀ t, index.lineStart? (index.lineOfOffset o + 1) = some t → o < t
  /-- A line that the text is cut into is where the index has the line of that number, and
  it is the content that is shown for the number. -/
  lines : ∀ n line, (lines text.toList)[n]? = some line → ∃ before ending after,
    IsLine text.toList n before line ending after ∧
      index.lineStart? (n + 1) = some (byteLength before) ∧
      lineContent text (n + 1) = String.ofList (trim line) ∧
      ∀ o, byteLength before ≤ o → o ≤ byteLength (before ++ line) → index.lineOfOffset o = n + 1

theorem lineContent_of_line {text : String} {line : List Char} {n : Nat}
    (h : (lines text.toList)[n]? = some line) :
    lineContent text (n + 1) = String.ofList (trim line) := by
  rw [lineContent, contentOf, h]

/-- The index of a text numbers its lines, whatever bytes its characters take and however
its lines end. -/
theorem ofText_numbers_lines (text : String) : (LineIndex.ofText text).Numbers text where
  lineOfOffset o := by
    rw [LineIndex.lineOfOffset_eq_count_take, ← List.take_eq_take_min]
  search o := LineIndex.line_binarySearch (LineIndex.starts_pairwise text)
    (LineIndex.lineOfOffset_pos text o)
  lineCount := LineIndex.lineCount_eq_count text
  lineStart := LineIndex.lineStart?_isSome_iff _
  increasing _ _ _ _ := LineIndex.lineStart?_lt text
  line_of_start _ _ := LineIndex.lineOfOffset_lineStart text
  around := LineIndex.exists_lineStart text
  lines n line h := by
    obtain ⟨before, ending, after, hline⟩ := exists_isLine h
    exact ⟨before, ending, after, hline, hline.lineStart?_eq, lineContent_of_line h,
      fun o => hline.lineOfOffset_eq⟩

example : (LineIndex.ofText "é\r\n\nb\n").starts = [0, 4, 5, 7] := by decide

end SchemaLint.Source
