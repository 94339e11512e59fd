import SchemaLint.Text.Search

/-!
# Diagnostics

One entry of a report. The message starts with the identifier of the rule that
speaks, a colon and a space; identifiers hold no colon, so the rule and its text
can be read back from the message.
-/

namespace SchemaLint

structure Diagnostic where
  file : String
  /-- Counted from 1; 0 when the place is not known. -/
  line : Nat
  message : String
  /-- The line the diagnostic points at, without blanks around it. -/
  lineContent : String
  /-- Tells diagnostics of one rule apart when some of them are suppressed. -/
  value : Option String
  deriving DecidableEq, Repr

namespace Diagnostic

def make (file : String) (line : Nat) (rule text lineContent : String)
    (value : Option String) : Diagnostic :=
  ⟨file, line, rule ++ ": " ++ text, lineContent, value⟩

/-- The message up to its first colon, or up to its first space if it has none. -/
def ruleIdOf (message : String) : String :=
  let cs := message.toList
  let stop := if cs.contains ':' then ':' else ' '
  String.ofList (cs.takeWhile (· != stop))

def ruleId (d : Diagnostic) : String := ruleIdOf d.message

/-- The message behind its first colon with a space, or all of it. -/
def text (d : Diagnostic) : String :=
  match Text.splitAtFirst? [':', ' '] d.message.toList with
  | some (_, after) => String.ofList after
  | none => d.message

/-- What a suppression compares its value with. -/
def suppressionValue (d : Diagnostic) : String := d.value.getD ""

def render (d : Diagnostic) : String :=
  d.file ++ ":" ++ toString d.line ++ ": " ++ d.message ++ "\n  " ++ d.lineContent

end Diagnostic

end SchemaLint
