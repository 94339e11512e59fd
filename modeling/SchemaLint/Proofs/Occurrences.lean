import SchemaLint.Proofs.BlankedPositions
import SchemaLint.Proofs.ReferenceLines

/-!
# First occurrences

A literal is looked up line by line, in lines without their ends. Looking for its bytes in
the bytes of the whole text and asking the index for the line of the offset leads to the same
line: bytes that read as the literal begin where one of its characters does, and an
occurrence without a line end in it lies on one line. A field is looked up in the same way,
by a stricter test.
-/

namespace SchemaLint.Source

open Text Sdl

/-! ## Occurrences among bytes -/

/-- Bytes are found at an offset. -/
def OccursAt (needle text : List UInt8) (o : Nat) : Prop := needle <+: text.drop o

/-- They are found there, and nowhere before. -/
structure IsLeftmost (needle text : List UInt8) (o : Nat) : Prop where
  occurs : OccursAt needle text o
  first : ∀ p < o, ¬ OccursAt needle text p

/-- Bytes tell with which character they begin. -/
theorem eq_of_utf8EncodeChar_append {c d : Char} {x y : List UInt8}
    (h : String.utf8EncodeChar c ++ x = String.utf8EncodeChar d ++ y) : c = d := by
  have hcd : ¬ c < d := fun hlt => List.lt_irrefl _ (h ▸ utf8EncodeChar_append_lt hlt x y)
  have hdc : ¬ d < c := fun hlt => List.lt_irrefl _ (h ▸ utf8EncodeChar_append_lt hlt y x)
  exact Char.le_antisymm (Char.not_lt.mp hdc) (Char.not_lt.mp hcd)

theorem encoded_nil : encoded [] = [] := List.flatMap_nil

theorem encoded_cons (c : Char) (cs : List Char) :
    encoded (c :: cs) = String.utf8EncodeChar c ++ encoded cs := List.flatMap_cons

theorem encoded_eq_nil_iff {cs : List Char} : encoded cs = [] ↔ cs = [] := by
  cases cs with
  | nil => simp [encoded_nil]
  | cons c cs => simp [encoded_cons, String.utf8EncodeChar_ne_nil]

theorem prefix_of_encoded_prefix {a b : List Char} (h : encoded a <+: encoded b) : a <+: b := by
  induction a generalizing b with
  | nil => exact List.nil_prefix
  | cons c a ih =>
    obtain ⟨rest, hrest⟩ := h
    rw [encoded_cons, List.append_assoc] at hrest
    cases b with
    | nil => exact absurd (List.append_eq_nil_iff.mp hrest).1 String.utf8EncodeChar_ne_nil
    | cons d b =>
      rw [encoded_cons] at hrest
      obtain rfl := eq_of_utf8EncodeChar_append hrest
      rw [List.append_cancel_left_eq] at hrest
      exact List.cons_prefix_cons.mpr ⟨rfl, ih ⟨rest, hrest⟩⟩

/-- No bytes of a text are found inside one character of another. -/
theorem not_occursAt_inside {w : List Char} (hne : w ≠ []) {c : Char} {x : List UInt8} {o : Nat}
    (hpos : 0 < o) (hlt : o < c.utf8Size) :
    ¬ OccursAt (encoded w) (String.utf8EncodeChar c ++ x) o := by
  rintro ⟨rest, hrest⟩
  obtain ⟨d, w, rfl⟩ := List.exists_cons_of_ne_nil hne
  rw [← String.length_utf8EncodeChar] at hlt
  have hfirst : (encoded (d :: w) ++ rest)[0]? = some (String.utf8EncodeChar c)[o] := by
    rw [hrest, List.getElem?_drop, Nat.add_zero, List.getElem?_append_left hlt,
      List.getElem?_eq_getElem hlt]
  have hpositive : 0 < (String.utf8EncodeChar d).length :=
    List.length_pos_iff.mpr String.utf8EncodeChar_ne_nil
  rw [encoded_cons, List.append_assoc, List.getElem?_append_left hpositive,
    List.getElem?_eq_getElem hpositive, Option.some_inj] at hfirst
  -- The first byte of a character is told apart from its other bytes.
  have hbyte : (String.utf8EncodeChar d)[0].IsUTF8FirstByte :=
    UInt8.isUTF8FirstByte_getElem_zero_utf8EncodeChar
  rw [hfirst, UInt8.isUTF8FirstByte_getElem_utf8EncodeChar] at hbyte
  omega

/-- Bytes of a text are found where its characters are. -/
theorem occursAt_encoded_iff {w : List Char} (hne : w ≠ []) {cs : List Char} {o : Nat} :
    OccursAt (encoded w) (encoded cs) o ↔ StandsAt cs w o := by
  constructor
  · intro h
    induction cs generalizing o with
    | nil =>
      rw [OccursAt, encoded_nil, List.drop_nil, List.prefix_nil, encoded_eq_nil_iff] at h
      exact absurd h hne
    | cons c cs ih =>
      rcases Nat.eq_zero_or_pos o with rfl | hpos
      · obtain ⟨rest, hrest⟩ := prefix_of_encoded_prefix h
        exact ⟨[], rest, hrest.symm, rfl⟩
      · rw [encoded_cons] at h
        by_cases hlt : o < c.utf8Size
        · exact absurd h (not_occursAt_inside hne hpos hlt)
        · rw [OccursAt, List.drop_append, String.length_utf8EncodeChar,
            List.drop_of_length_le (by rw [String.length_utf8EncodeChar]; omega),
            List.nil_append] at h
          obtain ⟨before, after, rfl, hlength⟩ := ih h
          refine ⟨c :: before, after, rfl, ?_⟩
          rw [byteLength_cons]
          omega
  · rintro ⟨before, after, rfl, rfl⟩
    rw [OccursAt, encoded_append, List.drop_left' (length_encoded before), encoded_append]
    exact List.prefix_append _ _

theorem occursAt_bytes_iff {source literal : String} (hne : literal ≠ "") {o : Nat} :
    OccursAt (bytes literal) (bytes source) o ↔ StandsAt source.toList literal.toList o := by
  rw [bytes_eq_encoded, bytes_eq_encoded, occursAt_encoded_iff (by simpa using hne)]

/-! ## First lines -/

/-- A line of a text is the first one that passes a test. -/
structure IsFirstLine (source : String) (test : List Char → Prop) (n : Nat) : Prop where
  passes : 1 ≤ n ∧ ∃ line, (lines source.toList)[n - 1]? = some line ∧ test line
  first : ∀ m line, 1 ≤ m → m < n → (lines source.toList)[m - 1]? = some line → ¬ test line

theorem firstLine_eq_zero_iff {source : String} {test : List Char → Bool} :
    firstLine source test = 0 ↔ ∀ line ∈ lines source.toList, test line = false := by
  rw [firstLine, ← List.findIdx?_eq_none_iff]
  cases (lines source.toList).findIdx? test <;> simp

theorem firstLine_eq_iff {source : String} {test : List Char → Bool} {n : Nat} (hn : n ≠ 0) :
    firstLine source test = n ↔ IsFirstLine source (test · = true) n := by
  obtain ⟨i, rfl⟩ := Nat.exists_eq_succ_of_ne_zero hn
  have hindex : firstLine source test = i + 1 ↔
      (lines source.toList).findIdx? test = some i := by
    rw [firstLine]
    cases (lines source.toList).findIdx? test <;> simp
  rw [hindex, List.findIdx?_eq_some_iff_getElem]
  constructor
  · rintro ⟨hi, htest, hbefore⟩
    refine ⟨⟨Nat.succ_pos i, _, List.getElem?_eq_getElem hi, htest⟩, fun m line hpos hm hline => ?_⟩
    obtain ⟨hlt, rfl⟩ := List.getElem?_eq_some_iff.mp hline
    exact hbefore (m - 1) (by omega)
  · rintro ⟨⟨-, line, hline, htest⟩, hfirst⟩
    obtain ⟨hi, rfl⟩ := List.getElem?_eq_some_iff.mp hline
    refine ⟨hi, htest, fun j hj => hfirst (j + 1) _ (Nat.succ_pos j) (by omega) ?_⟩
    exact List.getElem?_eq_getElem _

/-- A stricter test finds a later line, or none. -/
theorem firstLine_mono {source : String} {strict loose : List Char → Bool}
    (h : ∀ line, strict line = true → loose line = true) (hfound : firstLine source strict ≠ 0) :
    firstLine source loose ≤ firstLine source strict := by
  obtain ⟨⟨hpos, line, hline, hstrict⟩, -⟩ := (firstLine_eq_iff hfound).mp rfl
  by_contra hlater
  have hloose : firstLine source loose ≠ 0 := by omega
  refine ((firstLine_eq_iff hloose).mp rfl).first _ line hpos (by omega) hline (h line hstrict)

/-! ## Literals -/

theorem lineOf_eq_firstLine {source literal : String} (hne : literal ≠ "") :
    lineOf source literal = firstLine source (contains literal.toList) := by
  rw [lineOf, if_neg (by simpa using hne)]

/-- What a line holds stands in the text, at an offset of that line. -/
theorem standsAt_of_infix {source : String} {w line : List Char} {n : Nat}
    (hline : (lines source.toList)[n]? = some line) (h : w <:+: line) :
    ∃ o, StandsAt source.toList w o ∧ (LineIndex.ofText source).lineOfOffset o = n + 1 := by
  obtain ⟨before, ending, after, hisLine⟩ := exists_isLine hline
  obtain ⟨front, back, rfl⟩ := h
  refine ⟨byteLength (before ++ front), ⟨before ++ front, back ++ (ending ++ after), ?_, rfl⟩,
    hisLine.lineOfOffset_eq ?_ ?_⟩
  · rw [hisLine.text_eq]
    simp
  · rw [byteLength_append]
    omega
  · simp only [byteLength_append]
    omega

section Literal

variable {source literal : String} (hne : literal ≠ "") (hreturn : '\r' ∉ literal.toList)
  (hfeed : '\n' ∉ literal.toList)
include hne hreturn hfeed

theorem lineOf_eq_lineOfOffset {o : Nat} (h : IsLeftmost (bytes literal) (bytes source) o) :
    lineOf source literal = (LineIndex.ofText source).lineOfOffset o := by
  have hpos := LineIndex.lineOfOffset_pos source o
  have hstands := (occursAt_bytes_iff hne).mp h.occurs
  obtain ⟨line, hline, hinfix⟩ := infix_lineOfOffset (by simpa using hne) hfeed hreturn hstands
  rw [lineOf_eq_firstLine hne, firstLine_eq_iff (by omega)]
  refine ⟨⟨hpos, line, hline, (contains_iff_isInfix _ _).mpr hinfix⟩, ?_⟩
  intro m other hm hlt hother hcontains
  -- An earlier line would hold an earlier occurrence.
  obtain ⟨p, hp, hpline⟩ := standsAt_of_infix hother ((contains_iff_isInfix _ _).mp hcontains)
  have hle : o ≤ p := by
    by_contra hbefore
    exact h.first p (by omega) ((occursAt_bytes_iff hne).mpr hp)
  have hmono := (LineIndex.ofText source).lineOfOffset_mono hle
  omega

theorem lineOf_eq_zero_iff :
    lineOf source literal = 0 ↔ ∀ o, ¬ OccursAt (bytes literal) (bytes source) o := by
  rw [lineOf_eq_firstLine hne, firstLine_eq_zero_iff]
  constructor
  · intro h o hoccurs
    obtain ⟨line, hline, hinfix⟩ := infix_lineOfOffset (by simpa using hne) hfeed hreturn
      ((occursAt_bytes_iff hne).mp hoccurs)
    have hnone := h line (List.mem_of_getElem? hline)
    rw [(contains_iff_isInfix _ _).mpr hinfix] at hnone
    cases hnone
  · intro h line hline
    rw [← Bool.not_eq_true, contains_iff_isInfix]
    intro hinfix
    obtain ⟨n, hn⟩ := List.getElem?_of_mem hline
    obtain ⟨o, ho, -⟩ := standsAt_of_infix hn hinfix
    exact h o ((occursAt_bytes_iff hne).mpr ho)

end Literal

/-- No line has a line feed in it. -/
theorem lineOf_of_lineFeed {source literal : String} (h : '\n' ∈ literal.toList) :
    lineOf source literal = 0 := by
  have hne : literal ≠ "" := by
    rintro rfl
    cases h
  rw [lineOf_eq_firstLine hne, firstLine_eq_zero_iff]
  intro line hline
  rw [← Bool.not_eq_true, contains_iff_isInfix]
  intro hheld
  obtain ⟨n, hn⟩ := List.getElem?_of_mem hline
  obtain ⟨before, ending, after, hisLine⟩ := exists_isLine hn
  exact hisLine.line (hheld.subset h)

/-! ## Fields -/

/-- A line refers to a type by its name. An empty name is found at the end of every line. -/
def MentionsType (typeName : String) (line : List Char) : Prop :=
  (typeName ++ "!").toList <:+: line ∨ (typeName ++ "]").toList <:+: line ∨
    ("[" ++ typeName).toList <:+: line ∨ (typeName ++ " ").toList <:+: line ∨
    typeName.toList <:+ trimEnd line

/-- A line looks like the declaration of a field of a type. -/
structure DeclaresField (field typeName : String) (line : List Char) : Prop where
  marker : (field ++ ":").toList <:+: line
  type : MentionsType typeName line

theorem mentionsType_iff (typeName : String) (line : List Char) :
    mentionsType typeName.toList line = true ↔ MentionsType typeName line := by
  simp only [mentionsType, MentionsType, Bool.or_eq_true, contains_iff_isInfix,
    List.isSuffixOf_iff_suffix, String.toList_append]
  tauto

/-- The test that lines are put to when a field is looked up. -/
def fieldTest (field typeName : String) (line : List Char) : Bool :=
  contains (field.toList ++ [':']) line && (typeName.isEmpty || mentionsType typeName.toList line)

theorem fieldTest_iff (field typeName : String) (line : List Char) :
    fieldTest field typeName line = true ↔ DeclaresField field typeName line := by
  have hmarker : (field ++ ":").toList = field.toList ++ [':'] := String.toList_append ..
  rw [fieldTest, Bool.and_eq_true, Bool.or_eq_true, contains_iff_isInfix, mentionsType_iff,
    String.isEmpty_iff, ← hmarker]
  constructor
  · rintro ⟨hfield, rfl | htype⟩
    · exact ⟨hfield, .inr (.inr (.inr (.inr List.nil_suffix)))⟩
    · exact ⟨hfield, htype⟩
  · rintro ⟨hfield, htype⟩
    exact ⟨hfield, .inr htype⟩

theorem lineOfField_eq_firstLine (source field typeName : String) :
    lineOfField source field typeName = firstLine source (fieldTest field typeName) := rfl

theorem lineOf_marker_eq_firstLine (source field : String) :
    lineOf source (field ++ ":") = firstLine source (contains (field.toList ++ [':'])) := by
  rw [lineOf_eq_firstLine (by simp), String.toList_append]
  rfl

/-- Searches by lines lead to the first line with what is looked for. -/
structure SearchesFirst (source : String) : Prop where
  literal : ∀ literal o, literal ≠ "" → '\r' ∉ literal.toList → '\n' ∉ literal.toList →
    IsLeftmost (bytes literal) (bytes source) o →
      lineOf source literal = (LineIndex.ofText source).lineOfOffset o
  noLiteral : ∀ literal, literal ≠ "" → '\r' ∉ literal.toList → '\n' ∉ literal.toList →
    (lineOf source literal = 0 ↔ ∀ o, ¬ OccursAt (bytes literal) (bytes source) o)
  lineFeed : ∀ literal, '\n' ∈ literal.toList → lineOf source literal = 0
  field : ∀ field typeName, lineOfField source field typeName ≠ 0 →
    IsFirstLine source (DeclaresField field typeName) (lineOfField source field typeName) ∧
      lineOf source (field ++ ":") ≤ lineOfField source field typeName
  noField : ∀ field typeName, lineOfField source field typeName = 0 ↔
    ∀ line ∈ lines source.toList, ¬ DeclaresField field typeName line
  untyped : ∀ field, lineOfField source field "" = lineOf source (field ++ ":")

theorem searches_find_first (source : String) : SearchesFirst source where
  literal _ _ hne hreturn hfeed h := lineOf_eq_lineOfOffset hne hreturn hfeed h
  noLiteral _ hne hreturn hfeed := lineOf_eq_zero_iff hne hreturn hfeed
  lineFeed _ h := lineOf_of_lineFeed h
  field field typeName hfound := by
    rw [lineOfField_eq_firstLine] at hfound ⊢
    have hfirst := (firstLine_eq_iff hfound).mp rfl
    simp only [fieldTest_iff] at hfirst
    refine ⟨hfirst, ?_⟩
    rw [lineOf_marker_eq_firstLine]
    exact firstLine_mono (fun line hline => (Bool.and_eq_true_iff.mp hline).1) hfound
  noField field typeName := by
    simp only [lineOfField_eq_firstLine, firstLine_eq_zero_iff, ← fieldTest_iff,
      Bool.not_eq_true]
  untyped field := by
    have htest : fieldTest field "" = contains (field.toList ++ [':']) :=
      funext fun line => Bool.and_true _
    rw [lineOfField_eq_firstLine, lineOf_marker_eq_firstLine, htest]

example : lineOf "é:\r\n  id: ID\n  id: [B]" "id:" = 2 ∧
    lineOfField "é:\r\n  id: ID\n  id: [B]" "id" "B" = 3 := by decide +kernel

end SchemaLint.Source
