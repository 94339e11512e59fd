import SchemaLint.Federation.Composition
import SchemaLint.Federation.Directive
import SchemaLint.Rule.Connection
import SchemaLint.Rule.Deprecation
import SchemaLint.Rule.Description
import SchemaLint.Rule.EnumValue
import SchemaLint.Rule.Naming
import SchemaLint.Rule.Reference
import SchemaLint.Rule.Root
import SchemaLint.Rule.Sorting

/-!
# The catalogue of rules

All rules in the order in which they run.
-/

namespace SchemaLint

open Rule Federation

def catalogue : List Rule :=
  [typesAreCapitalized, typesHaveDescriptions, fieldsHaveDescriptions, fieldsAreCamelCased,
    argumentsHaveDescriptions, enumValuesHaveDescriptions, inputValuesHaveDescriptions,
    inputValuesAreCamelCased, deprecationsHaveAReason, descriptionsAreCapitalized,
    enumValuesSorted, inputFieldsSorted, typeFieldsSorted, interfaceFieldsSorted, queryRoot,
    relayPageInfo, relayConnectionTypes, relayConnectionArguments, definedTypesAreUsed,
    undefinedType, invalidEnumValue, suspiciousEnumValue, invalidDirective, composition]

def unreadableFileRule : String := "failed-to-read-schema-file"

/-- Every identifier that a diagnostic can carry. -/
def allRuleIds : List String :=
  syntaxErrorRule :: unreadableFileRule :: catalogue.map (·.id)

end SchemaLint
