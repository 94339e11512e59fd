import SchemaLint.Number.Shortest
import SchemaLint.Text.Quoted
import SchemaLint.Yaml.Data

/-!
# Problems of a configuration

What is said of a configuration that has a value of one kind where another is
wanted, or a key twice: where it is, and what is wrong with it.
-/

namespace SchemaLint

open Yaml

inductive Wanted
  | config
  | settings
  | suppression
  | sequence
  | boolean
  | lineNumber
  | text
  | key
  deriving DecidableEq, Repr

def Wanted.label : Wanted → String
  | .config => "struct LinterConfig"
  | .settings => "struct Settings"
  | .suppression => "struct Suppression"
  | .sequence => "a sequence"
  | .boolean => "a boolean"
  | .lineNumber => "usize"
  | .text => "a string"
  | .key => "field identifier"

inductive Found
  | scalar (meaning : Meaning)
  | sequence
  | mapping
  deriving DecidableEq, Repr

/-- What a node is found to be; it is no alias. -/
def Found.ofNode : Node → Found
  | .scalar _ style tag text => .scalar (scalarMeaning style tag text)
  | .sequence .. => .sequence
  | _ => .mapping

/-- A value between backticks. -/
def backticked (s : String) : String := "`" ++ s ++ "`"

def Found.label : Found → String
  | .scalar .nothing => "unit value"
  | .scalar (.boolean b) => "boolean " ++ backticked (if b then "true" else "false")
  | .scalar (.integer n) => "integer " ++ backticked (toString n)
  | .scalar .wideInteger => "integer"
  | .scalar (.floating x) => "floating point " ++ backticked x.renderShortest
  | .scalar (.text s) => "string " ++ Text.quoted s
  | .scalar (.malformed s) => "string " ++ Text.quoted s
  | .sequence => "sequence"
  | .mapping => "map"

/-- A step from a collection to one of its values. -/
inductive Step
  | key (name : String)
  | index (n : Nat)
  /-- By a key that is an alias. -/
  | unnamed
  deriving DecidableEq, Repr

/-- A path from the root, written with dots and square brackets. -/
def renderSteps (steps : List Step) : String :=
  steps.foldl (fun path step =>
    let dotted := if path.isEmpty then "" else path ++ "."
    match step with
    | .key name => dotted ++ name
    | .index n => path ++ "[" ++ toString n ++ "]"
    | .unnamed => dotted ++ "?") ""

inductive Complaint
  | wrongKind (found : Found) (wanted : Wanted)
  | repeatedKey (name : String)
  deriving DecidableEq, Repr

def Complaint.render : Complaint → String
  | .wrongKind found wanted => "invalid type: " ++ found.label ++ ", expected " ++ wanted.label
  | .repeatedKey name => "duplicate field " ++ backticked name

structure Problem where
  path : List Step
  complaint : Complaint
  start : Position
  deriving DecidableEq, Repr

/-- A place as it is shown, with lines and columns counted from 1. The very start
of a document is not shown. -/
def renderPlace (p : Position) : String :=
  if p = .origin then ""
  else " at line " ++ toString (p.line + 1) ++ " column " ++ toString (p.column + 1)

def Problem.render (p : Problem) : String :=
  (if p.path.isEmpty then "" else renderSteps p.path ++ ": ") ++ p.complaint.render ++
    renderPlace p.start

end SchemaLint
