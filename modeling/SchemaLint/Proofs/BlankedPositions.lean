import SchemaLint.Proofs.BlankedLines
import SchemaLint.Proofs.LineNumbers

/-!
# Blanking out keeps positions

Comment lines are blanked out in the bytes of a text: each line keeps its place and its
length, and line feeds stay where they are, so offsets in the blanked text are offsets in
the text itself. Everything follows from one fact: cutting the blanked text into lines gives
the blanked lines of the text.
-/

namespace SchemaLint.Source

open Text

/-! ## One line -/

/-- A line with its end, blanked out if it is a comment. -/
def maskPiece (piece : List Char) : List Char :=
  if isCommentLine piece then blankOut piece else piece

/-- The run of carriage returns and line feeds that closes a line. -/
structure ClosingRun (body run : List Char) : Prop where
  run : ∀ c ∈ run, c = '\r' ∨ c = '\n'
  /-- It is as long as can be. -/
  body : ∀ c ∈ body.getLast?, c ≠ '\r' ∧ c ≠ '\n'

theorem isLineEnd_iff (c : Char) : isLineEnd c = true ↔ c = '\r' ∨ c = '\n' := by
  simp [isLineEnd]

theorem exists_closingRun (piece : List Char) :
    ∃ body run, piece = body ++ run ∧ ClosingRun body run ∧
      blankOut piece = List.replicate (byteLength body) ' ' ++ run := by
  refine ⟨(piece.reverse.dropWhile isLineEnd).reverse, (piece.reverse.takeWhile isLineEnd).reverse,
    ?_, ⟨fun c hc => ?_, fun c hc => ?_⟩, rfl⟩
  · rw [← List.reverse_append, List.takeWhile_append_dropWhile, List.reverse_reverse]
  · rw [← isLineEnd_iff]
    exact List.all_eq_true.mp List.all_takeWhile c (List.mem_reverse.mp hc)
  · rw [List.getLast?_reverse] at hc
    have hend := List.head?_dropWhile_not isLineEnd piece.reverse
    rw [Option.mem_def.mp hc] at hend
    rw [← not_or, ← isLineEnd_iff]
    simpa using hend

/-- The line feed at the end of a line stays. -/
theorem blankOut_line (l : List Char) : blankOut (l ++ ['\n']) = blankOut l ++ ['\n'] := by
  have hend : isLineEnd '\n' = true := by decide
  have hreverse : (l ++ ['\n']).reverse = '\n' :: l.reverse := by simp
  simp only [blankOut, hreverse, List.takeWhile_cons_of_pos hend, List.dropWhile_cons_of_pos hend,
    List.reverse_cons, List.append_assoc]

theorem maskPiece_line (l : List Char) : maskPiece (l ++ ['\n']) = maskPiece l ++ ['\n'] := by
  rw [maskPiece, maskPiece, isCommentLine_append (.inl rfl)]
  split
  · exact blankOut_line l
  · rfl

theorem byteLength_maskPiece (piece : List Char) :
    byteLength (maskPiece piece) = byteLength piece := by
  rw [maskPiece]
  split
  · exact byteLength_blankOut piece
  · rfl

theorem not_mem_maskPiece {l : List Char} (hl : '\n' ∉ l) : '\n' ∉ maskPiece l := by
  rw [maskPiece]
  split
  · obtain ⟨body, run, hsplit, -, hblank⟩ := exists_closingRun l
    rw [hblank, List.mem_append, not_or]
    refine ⟨fun hmem => ?_, fun hmem => hl (hsplit ▸ List.mem_append_right body hmem)⟩
    exact absurd (List.eq_of_mem_replicate hmem) (by decide)
  · exact hl

theorem maskPiece_ne_nil {l : List Char} (hne : l ≠ []) : maskPiece l ≠ [] := by
  intro hnil
  have hlength := byteLength_maskPiece l
  obtain ⟨c, l, rfl⟩ := List.exists_cons_of_ne_nil hne
  have hpos := c.utf8Size_pos
  rw [hnil, byteLength_nil, byteLength_cons] at hlength
  omega

/-- What is left of a comment line is no comment line. -/
theorem isCommentLine_maskPiece (piece : List Char) : isCommentLine (maskPiece piece) = false := by
  rw [maskPiece]
  split
  · obtain ⟨body, run, -, hrun, hblank⟩ := exists_closingRun piece
    have hall : ∀ c ∈ blankOut piece, isBlank c = true := by
      intro c hc
      rw [hblank] at hc
      rcases List.mem_append.mp hc with hc | hc
      · rw [List.eq_of_mem_replicate hc]
        decide
      · rcases hrun.run c hc with rfl | rfl <;> decide
    rw [isCommentLine, trimStart, List.dropWhile_eq_nil_iff.mpr hall]
    rfl
  · next h => exact Bool.not_eq_true _ ▸ h

theorem maskPiece_maskPiece (piece : List Char) :
    maskPiece (maskPiece piece) = maskPiece piece := by
  have hcomment := isCommentLine_maskPiece piece
  rw [maskPiece, if_neg (by rw [hcomment]; decide)]

/-! ## All lines -/

theorem mask_eq_flatMap (cs : List Char) : mask cs = (pieces cs).flatMap maskPiece := rfl

/-- The lines of the blanked text are the blanked lines of the text. -/
theorem pieces_mask (cs : List Char) : pieces (mask cs) = (pieces cs).map maskPiece := by
  induction cs using line_induction with
  | nil => rfl
  | last l hl hne =>
    rw [mask_eq_flatMap, pieces_last hl hne, List.flatMap_singleton, List.map_singleton,
      pieces_last (not_mem_maskPiece hl) (maskPiece_ne_nil hne)]
  | line l cs hl ih =>
    rw [mask_eq_flatMap, pieces_line hl, List.flatMap_cons, maskPiece_line, ← mask_eq_flatMap,
      List.append_assoc, List.singleton_append, pieces_line (not_mem_maskPiece hl), ih,
      List.map_cons, maskPiece_line]

theorem mask_mask (cs : List Char) : mask (mask cs) = mask cs := by
  rw [mask_eq_flatMap, pieces_mask, List.flatMap_map, mask_eq_flatMap]
  simp only [maskPiece_maskPiece]

theorem chomp_prefix_piece (piece : List Char) : chomp piece <+: piece := by
  unfold chomp
  split
  · next r hr =>
    refine ⟨['\r', '\n'], ?_⟩
    rw [← List.reverse_reverse piece, hr]
    simp
  · next r _ hr =>
    refine ⟨['\n'], ?_⟩
    rw [← List.reverse_reverse piece, hr]
    simp
  · exact List.prefix_rfl

theorem isCommentLine_of_mem_pieces_mask {cs piece : List Char} (h : piece ∈ pieces (mask cs)) :
    isCommentLine piece = false ∧ isCommentLine (chomp piece) = false := by
  rw [pieces_mask] at h
  obtain ⟨old, -, rfl⟩ := List.mem_map.mp h
  have hpiece := isCommentLine_maskPiece old
  refine ⟨hpiece, Bool.eq_false_iff.mpr fun hchomp => ?_⟩
  obtain ⟨rest, hrest⟩ := chomp_prefix_piece (maskPiece old)
  have hcomment := isCommentLine_append_of hchomp rest
  rw [hrest, hpiece] at hcomment
  cases hcomment

/-- Where no line is a comment line, all lines are kept. -/
theorem keptNumbers_eq_range' {cs : List Char}
    (h : ∀ line ∈ lines cs, isCommentLine line = false) (n : Nat) :
    keptNumbers n cs = List.range' n (lines cs).length := by
  rw [keptNumbers, ← List.zipIdx_map_snd]
  refine (List.filterMap_congr fun entry hentry => ?_).trans (congrFun List.filterMap_eq_map _)
  have hline := h entry.1 (List.fst_mem_of_mem_zipIdx hentry)
  rw [Function.comp_apply]
  dsimp only
  rw [hline]
  rfl

/-! ## Places -/

namespace LineIndex

theorem startsFrom_eq_nil {l : List Char} (hl : '\n' ∉ l) (position : Nat) :
    startsFrom position l = [] := by
  induction l generalizing position with
  | nil => rfl
  | cons c l ih =>
    rw [List.mem_cons, not_or] at hl
    rw [startsFrom, if_neg (Ne.symm hl.1), ih hl.2]

/-- A line is told by its length only. -/
theorem startsFrom_line {l : List Char} (hl : '\n' ∉ l) (position : Nat) (cs : List Char) :
    startsFrom position (l ++ '\n' :: cs) =
      (position + byteLength l + 1) :: startsFrom (position + byteLength l + 1) cs := by
  rw [startsFrom_append, startsFrom_eq_nil hl, List.nil_append, startsFrom, if_pos rfl]
  rfl

theorem startsFrom_mask (position : Nat) (cs : List Char) :
    startsFrom position (mask cs) = startsFrom position cs := by
  induction cs using line_induction generalizing position with
  | nil => rfl
  | last l hl hne =>
    rw [mask_eq_flatMap, pieces_last hl hne, List.flatMap_singleton,
      startsFrom_eq_nil (not_mem_maskPiece hl), startsFrom_eq_nil hl]
  | line l cs hl ih =>
    rw [mask_eq_flatMap, pieces_line hl, List.flatMap_cons, maskPiece_line, ← mask_eq_flatMap,
      List.append_assoc, List.singleton_append, startsFrom_line (not_mem_maskPiece hl),
      startsFrom_line hl, byteLength_maskPiece, ih]

theorem ofText_maskCommentLines (source : String) :
    ofText (maskCommentLines source) = ofText source := by
  rw [ofText, toList_maskCommentLines, startsFrom_mask, ofText]

end LineIndex

/-- The bytes of characters. -/
def encoded (cs : List Char) : List UInt8 := cs.flatMap String.utf8EncodeChar

theorem bytes_eq_encoded (text : String) : bytes text = encoded text.toList :=
  bytes_eq_flatMap text

theorem encoded_append (a b : List Char) : encoded (a ++ b) = encoded a ++ encoded b :=
  List.flatMap_append

theorem length_encoded (cs : List Char) : (encoded cs).length = byteLength cs := by
  induction cs with
  | nil => rfl
  | cons c cs ih =>
    rw [encoded, List.flatMap_cons, List.length_append, String.length_utf8EncodeChar, ← encoded, ih,
      byteLength_cons]

/-- The bytes of a text from a place on. -/
def bytesAt (text : String) (start length : Nat) : List UInt8 :=
  ((bytes text).drop start).take length

theorem bytesAt_append {text : String} {a p b : List Char} (h : text.toList = a ++ (p ++ b)) :
    bytesAt text (byteLength a) (byteLength p) = encoded p := by
  rw [bytesAt, bytes_eq_encoded, h, encoded_append, encoded_append,
    List.drop_left' (length_encoded a), List.take_left' (length_encoded p)]

/-- A byte of a text is a line feed if it adds one to the line feeds before it. -/
theorem getElem?_eq_lineFeed_iff (bs : List UInt8) (o : Nat) :
    bs[o]? = some lineFeed ↔ (bs.take (o + 1)).count lineFeed = (bs.take o).count lineFeed + 1 := by
  rw [List.take_add_one, List.count_append]
  cases h : bs[o]? with
  | none => simp
  | some b =>
    by_cases hb : b = lineFeed
    · simp [hb]
    · simp [hb]

theorem getElem?_maskCommentLines_eq_lineFeed_iff (source : String) (o : Nat) :
    (bytes (maskCommentLines source))[o]? = some lineFeed ↔
      (bytes source)[o]? = some lineFeed := by
  -- The index of a text counts the line feeds before each place.
  have hcount : ∀ n, ((bytes (maskCommentLines source)).take n).count lineFeed =
      ((bytes source).take n).count lineFeed := by
    intro n
    have hline := LineIndex.lineOfOffset_eq_count_take (maskCommentLines source) n
    rw [LineIndex.ofText_maskCommentLines, LineIndex.lineOfOffset_eq_count_take] at hline
    omega
  rw [getElem?_eq_lineFeed_iff, getElem?_eq_lineFeed_iff, hcount, hcount]

/-- The bytes of a line of the blanked text are at the place of the line. -/
theorem bytesAt_maskCommentLines {source : String} {before after : List (List Char)}
    {line : List Char} (h : pieces source.toList = before ++ line :: after) :
    bytesAt (maskCommentLines source) (byteLength before.flatten) (byteLength line) =
      encoded (maskPiece line) := by
  have hplace : byteLength (before.flatMap maskPiece) = byteLength before.flatten := by
    clear h
    induction before with
    | nil => rfl
    | cons piece before ih =>
      rw [List.flatMap_cons, List.flatten_cons, byteLength_append, byteLength_append,
        byteLength_maskPiece, ih]
  have hsplit : (maskCommentLines source).toList =
      before.flatMap maskPiece ++ (maskPiece line ++ after.flatMap maskPiece) := by
    rw [toList_maskCommentLines, mask_eq_flatMap, h, List.flatMap_append, List.flatMap_cons]
  rw [← hplace, ← byteLength_maskPiece line]
  exact bytesAt_append hsplit

theorem bytesAt_of_pieces {source : String} {before after : List (List Char)} {line : List Char}
    (h : pieces source.toList = before ++ line :: after) :
    bytesAt source (byteLength before.flatten) (byteLength line) = encoded line := by
  refine bytesAt_append (b := after.flatten) ?_
  rw [← flatten_pieces source.toList, h, List.flatten_append, List.flatten_cons]

theorem encoded_replicate_space (n : Nat) :
    encoded (List.replicate n ' ') = List.replicate n 32 := by
  induction n with
  | zero => rfl
  | succ n ih =>
    rw [List.replicate_succ, List.replicate_succ, encoded, List.flatMap_cons, ← encoded, ih]
    rfl

/-! ## The blanked text -/

/-- A text is another with its comment lines blanked out, byte by byte. A line is cut with
its end, and stands behind the lines `before`. -/
structure Masks (source masked : String) : Prop where
  size : masked.utf8ByteSize = source.utf8ByteSize
  lineFeeds : ∀ o : Nat, (bytes masked)[o]? = some lineFeed ↔ (bytes source)[o]? = some lineFeed
  lineIndex : LineIndex.ofText masked = .ofText source
  kept : ∀ before line after, pieces source.toList = before ++ line :: after →
    isCommentLine line = false →
      bytesAt masked (byteLength before.flatten) (byteLength line) =
        bytesAt source (byteLength before.flatten) (byteLength line)
  blanked : ∀ before line after, pieces source.toList = before ++ line :: after →
    isCommentLine line = true →
      ∃ body run, line = body ++ run ∧ ClosingRun body run ∧
        bytesAt masked (byteLength before.flatten) (byteLength line) =
          List.replicate (byteLength body) 32 ++ encoded run
  /-- With and without its end, no line is a comment line. -/
  uncommented : ∀ line ∈ pieces masked.toList,
    isCommentLine line = false ∧ isCommentLine (chomp line) = false
  idempotent : maskCommentLines masked = masked
  keptLineNumbers : keptLineNumbers masked = List.range' 1 (lines source.toList).length

/-- Blanking out comment lines moves nothing, and leaves no comment lines. -/
theorem maskCommentLines_masks (source : String) : Masks source (maskCommentLines source) where
  size := utf8ByteSize_maskCommentLines source
  lineFeeds := getElem?_maskCommentLines_eq_lineFeed_iff source
  lineIndex := LineIndex.ofText_maskCommentLines source
  kept before line after h hkept := by
    have hsame : maskPiece line = line := if_neg (by rw [hkept]; decide)
    rw [bytesAt_maskCommentLines h, hsame, bytesAt_of_pieces h]
  blanked before line after h hcomment := by
    obtain ⟨body, run, hsplit, hrun, hblank⟩ := exists_closingRun line
    refine ⟨body, run, hsplit, hrun, ?_⟩
    rw [bytesAt_maskCommentLines h, maskPiece, if_pos hcomment, hblank, encoded_append,
      encoded_replicate_space]
  uncommented line hline := by
    rw [toList_maskCommentLines] at hline
    exact isCommentLine_of_mem_pieces_mask hline
  idempotent := by
    apply String.toList_injective
    rw [toList_maskCommentLines, toList_maskCommentLines, mask_mask]
  keptLineNumbers := by
    have hlines : ∀ line ∈ lines (mask source.toList), isCommentLine line = false := by
      intro line hline
      obtain ⟨piece, hpiece, rfl⟩ := List.mem_map.mp hline
      exact (isCommentLine_of_mem_pieces_mask hpiece).2
    have hlength : (lines (mask source.toList)).length = (lines source.toList).length := by
      rw [lines, lines, List.length_map, List.length_map, pieces_mask, List.length_map]
    rw [← hlength, ← keptNumbers_eq_range' hlines, ← toList_maskCommentLines]
    rfl

example : maskCommentLines "a\n \t//é\r\r\nb" = "a\n      \r\r\nb" := by decide +kernel

end SchemaLint.Source
