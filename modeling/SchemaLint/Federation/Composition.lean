import SchemaLint.Rule.Basic
import SchemaLint.Text.Blank

/-!
# Composition

Reasons why a schema would not compose with other subgraphs: keys that select
nothing or what is not declared, field sets that cannot be read, overrides that
do not say what they override. The check works on a text without comment lines
and numbers the lines of that text.
-/

namespace SchemaLint.Federation

open Sdl Source Text Rule

structure CompositionError where
  line : Nat
  message : String
  deriving DecidableEq, Repr

/-- A field set as a directive gives it. A blank one selects nothing. -/
def selectedFields (text : String) : Except Fault (List String) :=
  if allBlank text.toList then .ok [] else readFieldSet text

/-- A part of a schema whose fields federation looks at. -/
def isComposite (d : Definition) : Bool := d.kind == .object || d.kind == .interface

/-- The fields that definitions and extensions of a type declare together. -/
def declaredFields (ds : List Definition) (typeName : String) : List String :=
  (ds.filter fun d => isComposite d && d.name.text == typeName).flatMap fun d =>
    d.body.fields.map (·.name.text)

/-- What is wrong with a key. -/
def keyErrors (declared : List String) (typeName : String) (d : Directive) : List String :=
  let subject := "@key on " ++ ticked typeName
  match d.stringArgument? "fields" with
  | none => [subject ++ " must have a string 'fields' argument."]
  | some text =>
      match selectedFields text with
      | .error fault =>
          [subject ++ " has an invalid field set \"" ++ text ++ "\": " ++ fault.message]
      | .ok [] => [subject ++ " selects no fields."]
      | .ok selected =>
          (selected.filter (!declared.contains ·)).map fun name =>
            subject ++ " selects " ++ ticked name ++ ", which " ++ ticked typeName ++
              " does not declare."

/-- What is wrong with a directive on a field that carries a field set. -/
def fieldSetErrors (typeName field : String) (d : Directive) : List String :=
  let subject := "@" ++ d.name ++ " on " ++ tickedMember typeName field
  match d.stringArgument? "fields" with
  | none => [subject ++ " must have a string 'fields' argument."]
  | some text =>
      match selectedFields text with
      | .error fault => [subject ++ " has an invalid field set: " ++ fault.message]
      | .ok [] => [subject ++ " has an empty field set."]
      | .ok _ => []

def overrideErrors (typeName field : String) (d : Directive) : List String :=
  if (d.stringArgument? "from").all fun text => allBlank text.toList then
    ["@override on " ++ tickedMember typeName field ++
      " must name the subgraph it overrides with 'from'."]
  else []

/-- What is wrong with a directive on a field. -/
def fieldErrors (typeName field : String) (d : Directive) : List String :=
  if d.name == "requires" || d.name == "provides" then fieldSetErrors typeName field d
  else if d.name == "override" then overrideErrors typeName field d
  else []

/-- Messages about a definition, each with the directive it is about. -/
def definitionErrors (ds : List Definition) (d : Definition) : List (Directive × String) :=
  let typeName := d.name.text
  (d.directives.filter (·.name == "key")).flatMap (fun x =>
      (keyErrors (declaredFields ds typeName) typeName x).map (x, ·)) ++
    d.body.fields.flatMap fun f =>
      f.directives.flatMap fun x => (fieldErrors typeName f.name.text x).map (x, ·)

/-- Composition errors of definitions that were read from a text. -/
def errorsOfDefinitions (text : String) (ds : List Definition) : List CompositionError :=
  let index := LineIndex.ofText text
  ((ds.filter isComposite).flatMap (definitionErrors ds)).map fun (d, message) =>
    ⟨index.lineOfOffset d.offset, message⟩

/-- Why a text does not compose. A text that cannot be read is only told so. -/
def compositionErrors (text : String) : List CompositionError :=
  let reading := read text
  if reading.faults.isEmpty then errorsOfDefinitions text reading.definitions
  else
    (syntaxErrors text reading.faults).map fun e =>
      ⟨e.line, "Schema could not be parsed: " ++ e.message⟩

/-- The line of a text that stands as a line once comment lines are out, from the
numbers of the lines that are kept. -/
def keptLine (kept : List Nat) : Nat → Nat
  | 0 => 0
  | n + 1 => kept[n]?.getD 0

def composition : Rule where
  id := "federation-composition"
  description := "The schema composes as a federation subgraph"
  group := .federation
  findings doc :=
    let kept := keptLineNumbers doc.source
    (compositionErrors (stripCommentLines doc.source)).map fun e =>
      ⟨keptLine kept e.line, e.message, none⟩

end SchemaLint.Federation
