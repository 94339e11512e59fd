import SchemaLint.Rule.Basic
import SchemaLint.Text.Naming

/-!
# Names of types and fields
-/

namespace SchemaLint.Rule

open Text

/-- The first character is no capital. -/
def startsLow (name : String) : Bool := name.toList.head?.any (!isUppercase ·)

def typesAreCapitalized : Rule where
  id := "types-are-capitalized"
  description := "Object type names start with a capital letter"
  group := .core
  findings doc :=
    ((doc.typesOf .object).filter fun d =>
      !rootOperationTypes.contains d.name.text && startsLow d.name.text).map fun d =>
        doc.finding d.name
          ("The object type " ++ ticked d.name.text ++ " should start with a capital letter.")

def fieldsAreCamelCased : Rule where
  id := "fields-are-camel-cased"
  description := "Object type fields are camelCase"
  group := .core
  findings doc :=
    doc.objects.flatMap fun d =>
      (d.body.fields.filter (!isCamelCase ·.name.text)).map fun f =>
        doc.finding f.name
          ("The field " ++ tickedMember d.name.text f.name.text ++ " is not camel cased.")

def inputValuesAreCamelCased : Rule where
  id := "input-object-values-are-camel-cased"
  description := "Input object fields are camelCase"
  group := .core
  findings doc :=
    (doc.typesOf .input).flatMap fun d =>
      (d.body.inputFields.filter (!isCamelCase ·.name.text)).map fun f =>
        doc.finding f.name
          ("The input value " ++ tickedMember d.name.text f.name.text ++ " is not camel cased.")

end SchemaLint.Rule
