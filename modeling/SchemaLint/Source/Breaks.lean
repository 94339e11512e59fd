import SchemaLint.Text.Bytes

/-!
# Line breaks of every kind

Syntax errors are numbered by a wider notion of line: besides the line feed, a
carriage return, a vertical tab, a form feed, a next-line character and the line
and paragraph separators break a line, and a carriage return with a line feed
after it is one break. A break at the very end opens no further line.
-/

namespace SchemaLint.Source

def isBreak (c : Char) : Bool :=
  c == '\n' || c == '\r' || c == '\x0b' || c == '\x0c' || c == '\u0085' ||
    c == '\u2028' || c == '\u2029'

/-- Where lines start after a break, in a text that begins at `position`. -/
def breakStartsFrom (position : Nat) : List Char → List Nat
  | [] => []
  | '\r' :: '\n' :: cs =>
      if cs.isEmpty then [] else (position + 2) :: breakStartsFrom (position + 2) cs
  | c :: cs =>
      let next := position + c.utf8Size
      if isBreak c && !cs.isEmpty then next :: breakStartsFrom next cs
      else breakStartsFrom next cs

/-- Where lines start, counted with every kind of break. -/
def breakStarts (text : String) : List Nat := 0 :: breakStartsFrom 0 text.toList

/-- Number of the line that holds a byte offset, counted with every kind of break. -/
def breakLineOfOffset (text : String) (offset : Nat) : Nat :=
  (breakStarts text).countP (· ≤ offset)

end SchemaLint.Source
