import SchemaLint.Rule.Basic
import SchemaLint.Text.Naming

/-!
# Order of members

The members of a definition stand in the order of their names. A definition out
of order gives one finding, at the first member that is not where sorting would
put it.
-/

namespace SchemaLint.Rule

open Sdl Text

/-- The complaint about a list of members, if there is one. -/
def unsorted? (doc : SchemaDocument) (subject : String) (members : List Name) : Option Finding :=
  let names := members.map (·.text)
  (firstUnsorted? names).bind fun index =>
    members[index]?.map fun member =>
      doc.finding member
        (subject ++ " should be sorted alphabetically. Expected sorting: " ++
          expectedSorting names)

/-- The order of the members of all definitions of one kind. -/
def unsortedTypes (doc : SchemaDocument) (kind : TypeKind) (subject : String)
    (members : Definition → List Name) : List Finding :=
  (doc.typesOf kind).filterMap fun d =>
    unsorted? doc (subject ++ " " ++ ticked d.name.text) (members d)

/-- The text of the finding doubles as its value, so that a suppression can name
one arrangement. -/
def enumValuesSorted : Rule where
  id := "enum-values-sorted-alphabetically"
  description := "Enum values are sorted alphabetically"
  group := .convention
  findings doc :=
    (unsortedTypes doc .enum "The enum" fun d => d.body.enumValues.map (·.name)).map fun f =>
      { f with value := some f.text }

def inputFieldsSorted : Rule where
  id := "input-object-fields-sorted-alphabetically"
  description := "Input object fields are sorted alphabetically"
  group := .convention
  findings doc :=
    unsortedTypes doc .input "The fields of input type" fun d => d.body.inputFields.map (·.name)

def typeFieldsSorted : Rule where
  id := "type-fields-sorted-alphabetically"
  description := "Object type fields are sorted alphabetically"
  group := .convention
  findings doc :=
    unsortedTypes doc .object "The fields of object type" fun d => d.body.fields.map (·.name)

def interfaceFieldsSorted : Rule where
  id := "interface-fields-sorted-alphabetically"
  description := "Interface fields are sorted alphabetically"
  group := .convention
  findings doc :=
    unsortedTypes doc .interface "The fields of interface type" fun d =>
      d.body.fields.map (·.name)

end SchemaLint.Rule
