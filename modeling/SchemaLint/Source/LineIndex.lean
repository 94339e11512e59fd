import SchemaLint.Text.Bytes

/-!
# Line index

Maps byte offsets of a text to line numbers. Lines are numbered from 1 and end
at a line feed; a line feed at the very end opens one more, empty line. An
offset past the end belongs to the last line.
-/

namespace SchemaLint.Source

/-- Byte offsets at which lines start, in increasing order; the first is 0. -/
structure LineIndex where
  starts : List Nat

namespace LineIndex

/-- The starts of the lines after the first of a text that begins at `position`. -/
def startsFrom (position : Nat) : List Char → List Nat
  | [] => []
  | c :: cs =>
      let next := position + c.utf8Size
      if c = '\n' then next :: startsFrom next cs else startsFrom next cs

def ofText (text : String) : LineIndex := ⟨0 :: startsFrom 0 text.toList⟩

def lineCount (index : LineIndex) : Nat := index.starts.length

def lineOfOffset (index : LineIndex) (offset : Nat) : Nat :=
  index.starts.countP (· ≤ offset)

def lineStart? (index : LineIndex) : Nat → Option Nat
  | 0 => none
  | n + 1 => index.starts[n]?

end LineIndex

end SchemaLint.Source
