import SchemaLint.Text.Blank
import SchemaLint.Text.Bytes
import SchemaLint.Text.Lines

/-!
# Comment lines

A line whose first characters that are not blank are `//` is a comment to the
linter, though not to the schema language. Such lines are either blanked out,
which keeps every position, or left out, which keeps a list of the line numbers
that remain.
-/

namespace SchemaLint.Source

open SchemaLint.Text

def isCommentLine (line : List Char) : Bool := ['/', '/'].isPrefixOf (trimStart line)

def isLineEnd (c : Char) : Bool := c == '\r' || c == '\n'

/-- Spaces for every byte of a line, and the line ends that close it. -/
def blankOut (piece : List Char) : List Char :=
  let ends := (piece.reverse.takeWhile isLineEnd).reverse
  let body := (piece.reverse.dropWhile isLineEnd).reverse
  List.replicate (byteLength body) ' ' ++ ends

/-- Comment lines blanked out: every byte offset and line number stays. -/
def maskCommentLines (source : String) : String :=
  String.ofList ((pieces source.toList).flatMap fun piece =>
    if isCommentLine piece then blankOut piece else piece)

/-- Comment lines left out. -/
def stripCommentLines (source : String) : String :=
  String.ofList (List.intercalate ['\n']
    ((lines source.toList).filter fun line => !isCommentLine line))

/-- The numbers of the lines that `stripCommentLines` keeps. -/
def keptLineNumbers (source : String) : List Nat :=
  ((lines source.toList).zipIdx 1).filterMap fun (line, number) =>
    if isCommentLine line then none else some number

end SchemaLint.Source
