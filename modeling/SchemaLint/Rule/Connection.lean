import SchemaLint.Rule.Basic

/-!
# Relay connections

A type whose name ends in `Connection` has page information and edges, and a
field of such a type can be asked for a page forward or backward.
-/

namespace SchemaLint.Rule

open Sdl

def isConnection (typeName : String) : Bool := "Connection".toList.isSuffixOf typeName.toList

def connectionFields : List String := ["pageInfo", "edges"]

def relayConnectionTypes : Rule where
  id := "relay-connection-types-spec"
  description := "Connection types have pageInfo and edges fields"
  group := .convention
  findings doc :=
    ((doc.typesOf .object).filter (isConnection ·.name.text)).flatMap fun d =>
      (connectionFields.filter fun r => !d.body.fields.any (·.name.text == r)).map fun r =>
        doc.finding d.name
          ("Connection type " ++ ticked d.name.text ++ " must have a " ++ ticked r ++
            " field as per the Relay spec.")

/-- The field can be asked for a page in one direction at least. -/
def canPage (f : Field) : Bool :=
  let has := fun (name : String) => f.arguments.any (·.name.text == name)
  (has "first" && has "after") || (has "last" && has "before")

def relayConnectionArguments : Rule where
  id := "relay-connection-arguments-spec"
  description := "Connection fields take first/after or last/before arguments"
  group := .convention
  findings doc :=
    (withArguments doc).flatMap fun d =>
      (d.body.fields.filter fun f => isConnection f.type.base && !canPage f).map fun f =>
        doc.finding f.name
          ("Field " ++ tickedMember d.name.text f.name.text ++
            " returns a connection and must accept forward pagination arguments (first, after)" ++
            " or backward pagination arguments (last, before).")

end SchemaLint.Rule
