import SchemaLint.Text.Terminal

/-!
# Styled texts

Texts of the command line about itself, in which words stand out by what they are.
Without colours nothing is left of the styles, nor of commands to the terminal that
the texts bring with them.
-/

namespace SchemaLint.CommandLine

inductive Style
  | plain
  | heading
  /-- To be typed as it is. -/
  | literal
  | error
  /-- Typed, and wrong. -/
  | invalid
  | valid
  deriving DecidableEq, Repr

/-- The codes that switch a style on, one after the other. -/
def Style.codes : Style → List String
  | .plain => []
  | .heading => ["1", "4"]
  | .literal => ["1"]
  | .error => ["1", "31"]
  | .invalid => ["33"]
  | .valid => ["32"]

structure Span where
  style : Style
  text : String
  deriving DecidableEq, Repr

def plain (text : String) : Span := ⟨.plain, text⟩

def literal (text : String) : Span := ⟨.literal, text⟩

def Span.render (s : Span) : String :=
  match s.style.codes with
  | [] => s.text
  | codes => String.join (codes.map fun c => "\x1b[" ++ c ++ "m") ++ s.text ++ "\x1b[0m"

abbrev StyledLine := List Span

/-- The lines as they go to a terminal. -/
def renderStyled (colours : Bool) (lines : List StyledLine) : String :=
  let text := String.join (lines.map fun l => String.join (l.map (·.render)) ++ "\n")
  if colours then text else Text.withoutCommands text

end SchemaLint.CommandLine
