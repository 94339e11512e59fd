import SchemaLint.Text.Blank
import SchemaLint.Text.Lines
import SchemaLint.Text.Search

/-!
# Looking a name up in the text

Searches that map a name back to a line of the source. Lines are numbered from
1, and 0 stands for a name that is not found.
-/

namespace SchemaLint.Source

open SchemaLint.Text

/-- The number of the first line that passes the test, or 0. -/
def firstLine (source : String) (test : List Char → Bool) : Nat :=
  match (lines source.toList).findIdx? test with
  | some index => index + 1
  | none => 0

/-- First line that holds `literal`; an empty literal stands on line 1. -/
def lineOf (source literal : String) : Nat :=
  if literal.isEmpty then 1 else firstLine source (contains literal.toList)

/-- One of the lines without the blanks around it, or nothing when there is no such
line. -/
def contentOf (lines : List (List Char)) : Nat → String
  | 0 => ""
  | n + 1 =>
      match lines[n]? with
      | some line => String.ofList (trim line)
      | none => ""

def lineContent (source : String) (line : Nat) : String := contentOf (lines source.toList) line

/-- The first number that is not 0, or 0. -/
def firstFound : List Nat → Nat
  | [] => 0
  | 0 :: rest => firstFound rest
  | n :: _ => n

def typeKeywords : List String :=
  ["type ", "input ", "enum ", "interface ", "union ", "scalar "]

/-- Line of the definition of a type, trying each keyword in turn. -/
def lineOfType (source name : String) : Nat :=
  firstFound (typeKeywords.map fun keyword => lineOf source (keyword ++ name))

/-- The line refers to a type: closed by `!`, `]`, a space or the end of the
line, or opened by `[`. -/
def mentionsType (typeName line : List Char) : Bool :=
  contains (typeName ++ ['!']) line ||
    contains (typeName ++ [']']) line ||
    contains ('[' :: typeName) line ||
    typeName.isSuffixOf (trimEnd line) ||
    contains (typeName ++ [' ']) line

/-- First line with `field:` on it that also refers to the type, if one is given. -/
def lineOfField (source field typeName : String) : Nat :=
  firstLine source fun line =>
    contains (field.toList ++ [':']) line &&
      (typeName.isEmpty || mentionsType typeName.toList line)

end SchemaLint.Source
