import SchemaLint.Rule.Basic

/-!
# Deprecated enum values
-/

namespace SchemaLint.Rule

open Sdl

/-- `@deprecated` without any argument. -/
def isBareDeprecation (d : Directive) : Bool := d.name == "deprecated" && d.arguments.isEmpty

def deprecationsHaveAReason : Rule where
  id := "deprecations-have-a-reason"
  description := "Deprecated enum values state a reason"
  group := .core
  findings doc :=
    (doc.typesOf .enum).flatMap fun d =>
      (d.body.enumValues.filter (·.directives.any isBareDeprecation)).map fun v =>
        doc.finding v.name
          ("Deprecated enum value " ++ tickedMember d.name.text v.name.text ++
            " must have a reason.")

end SchemaLint.Rule
