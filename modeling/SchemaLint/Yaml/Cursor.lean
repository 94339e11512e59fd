/-!
# A place in a document

The text that is still to be read, and the line and column where it starts, both
counted from 0. The length of keys is limited in bytes, which are counted too. Line ends of every form are one character here: a carriage return,
alone or before a line feed, and the next line character become line feeds.
-/

namespace SchemaLint.Yaml

/-- Characters that a document may hold. -/
def isAllowed (c : Char) : Bool :=
  c == '\t' || c == '\n' || c == '\r' || (' ' ≤ c && c ≤ '~') || c == '\u0085' ||
    ('\u00A0' ≤ c && c.toNat ≤ 0xD7FF) || (0xE000 ≤ c.toNat && c.toNat ≤ 0xFFFD) ||
    0x10000 ≤ c.toNat

def unifyBreaks : List Char → List Char
  | [] => []
  | '\r' :: '\n' :: cs => '\n' :: unifyBreaks cs
  | c :: cs => (if c = '\r' || c = '\u0085' then '\n' else c) :: unifyBreaks cs

/-- Ends a line, once line ends are unified. -/
def isBreak (c : Char) : Bool := c == '\n' || c == '\u2028' || c == '\u2029'

def isSpaceOrTab (c : Char) : Bool := c == ' ' || c == '\t'

def isGap (c : Char) : Bool := isSpaceOrTab c || isBreak c

structure Position where
  line : Nat
  column : Nat
  deriving DecidableEq, Repr

def Position.origin : Position := ⟨0, 0⟩

def Position.after (p : Position) (c : Char) : Position :=
  if isBreak c then ⟨p.line + 1, 0⟩ else ⟨p.line, p.column + 1⟩

structure Cursor where
  rest : List Char
  position : Position
  /-- Bytes before the rest. -/
  offset : Nat

namespace Cursor

def ofText (cs : List Char) : Cursor := ⟨unifyBreaks cs, .origin, 0⟩

variable (cursor : Cursor)

def column : Nat := cursor.position.column

def head? : Option Char := cursor.rest.head?

def startsWith (c : Char) : Bool := cursor.head? == some c

def headIs (test : Char → Bool) : Bool := cursor.head?.any test

def atEnd : Bool := cursor.rest.isEmpty

/-- Blank, line end or end of the text stand at some distance. -/
def gapAt (distance : Nat) : Bool := (cursor.rest.drop distance).head?.all isGap

/-- The line is over here. -/
def atLineEnd : Bool := cursor.head?.all isBreak

def skip (cursor : Cursor) : Nat → Cursor
  | 0 => cursor
  | n + 1 =>
      match cursor.rest with
      | [] => cursor
      | c :: cs => skip ⟨cs, cursor.position.after c, cursor.offset + c.utf8Size⟩ n

def skipWhile (test : Char → Bool) : Cursor :=
  cursor.skip (cursor.rest.takeWhile test).length

/-- A line that starts with the mark of a start or end of a document. -/
def atDocumentMark (mark : String) : Bool :=
  cursor.column == 0 && mark.toList.isPrefixOf cursor.rest && cursor.gapAt 3

def atAnyDocumentMark : Bool := cursor.atDocumentMark "---" || cursor.atDocumentMark "..."

end Cursor

end SchemaLint.Yaml
