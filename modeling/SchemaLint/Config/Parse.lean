import SchemaLint.Config.Decode
import SchemaLint.Text.Blank
import SchemaLint.Yaml.Data
import SchemaLint.Yaml.Document

/-!
# Reading a configuration

Blank text is the default configuration. A text that is no document, or cannot be
read as data, is refused without details; otherwise the first problem is named.
-/

namespace SchemaLint

/-- A text is no configuration; the problem is absent if the text cannot be read as
data. -/
structure InvalidConfig where
  path : String
  problem : Option Problem
  deriving DecidableEq, Repr

def InvalidConfig.message (e : InvalidConfig) : String :=
  "Invalid configuration at " ++ e.path ++ ": YAML parse error:" ++
    match e.problem with
    | some p => " " ++ p.render
    | none => ""

/-- What is told of a document that does not decode. -/
def toldProblem? (document : Yaml.Document) : DecodeError → Option Problem
  | .problem p => if document.isData then some p else none
  | .tooManyAliases => none

/-- Reads a configuration. The path is shown in the message of an error. -/
def Config.parse (path text : String) : Except InvalidConfig Config :=
  if Text.allBlank text.toList then .ok {}
  else
    match Yaml.Document.parse? text with
    | none => .error ⟨path, none⟩
    | some document => (Config.decode document).mapError fun e => ⟨path, toldProblem? document e⟩

end SchemaLint
