import SchemaLint.Rule.Basic
import SchemaLint.Text.Bytes
import SchemaLint.Text.Distance
import SchemaLint.Text.Lowercase

/-!
# Directives of a subgraph

Object types and their fields carry only directives that federation or the
schema language itself knows.
-/

namespace SchemaLint.Federation

open Sdl Text Rule

def allowedDirectives : List String :=
  ["key", "external", "requires", "provides", "extends", "shareable", "inaccessible",
    "override", "composeDirective", "interfaceObject", "tag", "deprecated", "specifiedBy",
    "oneOf"]

def isUnknown (d : Directive) : Bool := !allowedDirectives.contains d.name

/-- Directives that a misspelled one on a type may have meant. -/
def directiveHints : List String := ["key", "external"]

def hintDistance : Nat := 3

/-- The name holds the hint, is a part of it longer than one byte, or is close to
it. -/
def resembles (name : List Char) (hint : List Char) : Bool :=
  contains hint name || (1 < byteLength name && contains name hint) ||
    editDistance name hint ≤ hintDistance

def suggestDirective? (name : String) : Option String :=
  let lowered := lower name.toList
  directiveHints.find? (resembles lowered ·.toList)

def typeDirectiveText (typeName directive : String) : String :=
  "Unknown directive '@" ++ directive ++ "' on type " ++ ticked typeName ++ "." ++
    match suggestDirective? directive with
    | some hint => " Did you mean '@" ++ hint ++ "'?"
    | none => ""

def fieldDirectiveText (typeName field directive : String) : String :=
  "Unknown directive '@" ++ directive ++ "' on field " ++ tickedMember typeName field ++ "."

def unknownDirectives (doc : SchemaDocument) (d : Definition) : List Finding :=
  let typeName := d.name.text
  (d.directives.filter isUnknown).map (fun x =>
      ⟨doc.lineOfOffset x.offset, typeDirectiveText typeName x.name, none⟩) ++
    d.body.fields.flatMap fun f =>
      (f.directives.filter isUnknown).map fun x =>
        ⟨doc.lineOfOffset x.offset, fieldDirectiveText typeName f.name.text x.name, none⟩

def invalidDirective : Rule where
  id := "invalid-federation-directive"
  description := "Directives on types and fields are federation or built-in directives"
  group := .federation
  findings doc := doc.objects.flatMap (unknownDirectives doc)

end SchemaLint.Federation
