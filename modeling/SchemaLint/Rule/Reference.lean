import SchemaLint.Rule.Basic

/-!
# References between types

Fields, arguments and input fields refer to types by name, and unions list their
members. A type that nothing refers to is unused; a reference to a name that is
neither built in nor defined in the same document is undefined.
-/

namespace SchemaLint.Rule

open Sdl Source

/-- A place that refers to a type. -/
structure Reference where
  /-- How a finding speaks of the place. -/
  subject : String
  /-- The name of the field, argument or input field. -/
  name : Name
  type : TypeRef

def fieldReferences (owner : String) (f : Field) : List Reference :=
  ⟨"Field " ++ tickedMember owner f.name.text, f.name, f.type⟩ ::
    f.arguments.map fun a =>
      ⟨"Argument '" ++ owner ++ "." ++ f.name.text ++ "(" ++ a.name.text ++ ":)'", a.name, a.type⟩

/-- The references of a definition or extension, in the order of the text. -/
def references (d : Definition) : List Reference :=
  let owner := d.name.text
  d.body.fields.flatMap (fieldReferences owner) ++
    d.body.inputFields.map fun v =>
      ⟨"Input field " ++ tickedMember owner v.name.text, v.name, v.type⟩

/-- Base names of all types that a definition refers to, union members included. -/
def usedTypes (d : Definition) : List String :=
  d.body.fields.flatMap (fun f => f.type.base :: f.arguments.map (·.type.base)) ++
    d.body.inputFields.map (·.type.base) ++ d.body.unionMembers

def usedTypeNames (doc : SchemaDocument) : List String := doc.definitions.flatMap usedTypes

def definedTypesAreUsed : Rule where
  id := "defined-types-are-used"
  description := "Defined types are referenced by a field, argument, input field or union"
  group := .core
  findings doc :=
    let used := usedTypeNames doc
    (doc.definitions.filter fun d =>
      !d.isExtension && !rootOperationTypes.contains d.name.text &&
        !used.contains d.name.text).map fun d =>
      doc.finding d.name
        ("The type " ++ ticked d.name.text ++ " is defined in the schema but not used anywhere.")

def builtInScalars : List String := ["String", "Int", "Float", "Boolean", "ID"]

/-- Where the text first declares something of that name and type: with the type
on the same line, then as `name: Type`, then as `name:`. -/
def referenceLine (source name base : String) : Nat :=
  firstFound
    [lineOfField source name base, lineOf source (name ++ ": " ++ base),
      lineOf source (name ++ ":")]

def undefinedType : Rule where
  id := "undefined-type"
  description := "Referenced types are built-in scalars or defined in the same schema"
  group := .core
  findings doc :=
    let known := builtInScalars ++ doc.definedTypeNames
    ((doc.definitions.flatMap references).filter fun r => !known.contains r.type.base).map
      fun r =>
        ⟨referenceLine doc.source r.name.text r.type.base,
          r.subject ++ " references undefined type " ++ ticked r.type.base ++ ".", none⟩

end SchemaLint.Rule
