import SchemaLint.Rule.Basic

/-!
# Types that every schema has
-/

namespace SchemaLint.Rule

/-- The document defines an object type of that name. -/
def definesObject (doc : SchemaDocument) (name : String) : Bool :=
  (doc.typesOf .object).any (·.name.text == name)

def queryRoot : Rule where
  id := "invalid-graphql-schema"
  description := "The schema defines a Query root type"
  group := .core
  findings doc :=
    if definesObject doc "Query" then [] else [⟨1, "Query root type must be provided.", none⟩]

def relayPageInfo : Rule where
  id := "relay-page-info-spec"
  description := "A PageInfo object type is defined"
  group := .convention
  findings doc :=
    if definesObject doc "PageInfo" then []
    else [⟨1, "A `PageInfo` object type is required as per the Relay spec.", none⟩]

end SchemaLint.Rule
