import SchemaLint.Yaml.Cursor

/-!
# Gaps between words

Words of a plain or quoted scalar are set apart by blanks and line ends. Blanks
within a line stay as they are. One line end is folded into a space; of several,
all but the first stay. Blanks around line ends are lost.
-/

namespace SchemaLint.Yaml

structure Gap where
  /-- Blanks before the first line end. -/
  blanks : List Char
  breaks : List Char

namespace Gap

/-- The gap that a text starts with. -/
def ofText (cs : List Char) : Gap :=
  let run := cs.takeWhile isGap
  ⟨run.takeWhile isSpaceOrTab, run.filter isBreak⟩

/-- What the gap adds to a scalar. -/
def folded (gap : Gap) : List Char :=
  match gap.breaks with
  | [] => gap.blanks
  | ['\n'] => [' ']
  | '\n' :: more => more
  | breaks => breaks

/-- A tab stands left of a column on a line that the gap opens. -/
def hasEarlyTab (indent : Nat) : Option Nat → List Char → Bool
  | _, [] => false
  | column, c :: cs =>
      if isBreak c then hasEarlyTab indent (some 0) cs
      else if isSpaceOrTab c then
        (c == '\t' && column.any (· < indent)) || hasEarlyTab indent (column.map (· + 1)) cs
      else false

end Gap

/-- Past the gap that starts here. -/
def Cursor.skipGap (cursor : Cursor) : Cursor := cursor.skipWhile isGap

end SchemaLint.Yaml
