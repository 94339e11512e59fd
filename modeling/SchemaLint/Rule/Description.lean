import SchemaLint.Rule.Basic
import SchemaLint.Text.Naming

/-!
# Descriptions

Which parts of a schema have to be described, and how a description starts. An
empty description is one.
-/

namespace SchemaLint.Rule

open Sdl Text

def typesHaveDescriptions : Rule where
  id := "types-have-descriptions"
  description := "Object types have a description"
  group := .description
  findings doc :=
    ((doc.typesOf .object).filter (·.description.isNone)).map fun d =>
      doc.finding d.name
        ("The object type " ++ ticked d.name.text ++ " is missing a description.")

def fieldsHaveDescriptions : Rule where
  id := "fields-have-descriptions"
  description := "Object type fields have a description"
  group := .description
  findings doc :=
    doc.objects.flatMap fun d =>
      (d.body.fields.filter (·.description.isNone)).map fun f =>
        doc.finding f.name
          ("The field " ++ tickedMember d.name.text f.name.text ++ " is missing a description.")

def argumentsHaveDescriptions : Rule where
  id := "arguments-have-descriptions"
  description := "Field arguments have a description"
  group := .description
  findings doc :=
    (withArguments doc).flatMap fun d =>
      d.body.fields.flatMap fun f =>
        (f.arguments.filter (·.description.isNone)).map fun a =>
          doc.finding a.name
            ("The argument " ++ ticked a.name.text ++ " of field " ++
              tickedMember d.name.text f.name.text ++ " is missing a description.")

def enumValuesHaveDescriptions : Rule where
  id := "enum-values-have-descriptions"
  description := "Enum values have a description"
  group := .description
  findings doc :=
    (doc.typesOf .enum).flatMap fun d =>
      (d.body.enumValues.filter (·.description.isNone)).map fun v =>
        doc.finding v.name
          ("The enum value " ++ tickedMember d.name.text v.name.text ++
            " is missing a description.")

def inputValuesHaveDescriptions : Rule where
  id := "input-object-values-have-descriptions"
  description := "Input object fields have a description"
  group := .description
  findings doc :=
    (doc.typesOf .input).flatMap fun d =>
      (d.body.inputFields.filter (·.description.isNone)).map fun f =>
        doc.finding f.name
          ("The input value " ++ tickedMember d.name.text f.name.text ++
            " is missing a description.")

/-- A part of a schema that can be described. -/
structure Described where
  description : Option String
  name : Name
  /-- How a finding speaks of it. -/
  subject : String

def Described.isLowercase (d : Described) : Bool := d.description.any (!isCapitalized ·)

def describedField (owner : String) (f : Field) : List Described :=
  ⟨f.description, f.name, "field " ++ tickedMember owner f.name.text⟩ ::
    f.arguments.map fun a =>
      ⟨a.description, a.name,
        "argument " ++ ticked a.name.text ++ " of field " ++ tickedMember owner f.name.text⟩

/-- The described members of a definition. Of extensions only those of object
types are looked at. -/
def describedMembers (d : Definition) : List Described :=
  let owner := d.name.text
  match d.body with
  | .object fields => fields.flatMap (describedField owner)
  | .interface fields => if d.isExtension then [] else fields.flatMap (describedField owner)
  | .input fields =>
      if d.isExtension then []
      else fields.map fun f =>
        ⟨f.description, f.name, "field " ++ tickedMember owner f.name.text⟩
  | .enum values =>
      if d.isExtension then []
      else values.map fun v =>
        ⟨v.description, v.name, "enum value " ++ tickedMember owner v.name.text⟩
  | .union _ => []
  | .scalar => []

/-- A definition and its members. An extension has no description of its own. -/
def describedParts (d : Definition) : List Described :=
  ⟨d.description, d.name, "type " ++ ticked d.name.text⟩ :: describedMembers d

def descriptionsAreCapitalized : Rule where
  id := "descriptions-are-capitalized"
  description := "Descriptions start with a capital letter"
  group := .description
  findings doc :=
    ((doc.definitions.flatMap describedParts).filter (·.isLowercase)).map fun p =>
      doc.finding p.name ("The description for " ++ p.subject ++ " should be capitalized.")

end SchemaLint.Rule
