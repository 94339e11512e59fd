import SchemaLint.Document

/-!
# Rules

A rule looks at a document and says what it finds. Its group decides under which
settings it runs.
-/

namespace SchemaLint

inductive RuleGroup
  | core
  | description
  | convention
  | federation
  deriving DecidableEq, Repr

structure Rule where
  id : String
  description : String
  group : RuleGroup
  findings : SchemaDocument → List Finding

/-- What a rule reports on a document. -/
def Rule.check (rule : Rule) (doc : SchemaDocument) : List Diagnostic :=
  doc.diagnostics rule.id (rule.findings doc)

namespace Rule

def rootOperationTypes : List String := ["Query", "Mutation", "Subscription"]

/-- A name in the text of a finding. -/
def ticked (name : String) : String := "'" ++ name ++ "'"

/-- A member of a type in the text of a finding. -/
def tickedMember (owner member : String) : String := "'" ++ owner ++ "." ++ member ++ "'"

/-- The definitions whose fields take arguments that rules look at: object types
and their extensions, then interface types. -/
def withArguments (doc : SchemaDocument) : List Sdl.Definition :=
  doc.objects ++ doc.typesOf .interface

end Rule

end SchemaLint
