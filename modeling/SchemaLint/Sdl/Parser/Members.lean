import SchemaLint.Sdl.Parser.TypeRef

/-!
# Members of type definitions

Fields, input values and enum values. A member that lacks a part it cannot do
without is not kept; the faults noted on the way say what was missing.
-/

namespace SchemaLint.Sdl.Parser

def inputValue : Parser (Option InputValue) := do
  let description ← description?
  let n ← name
  if ← skip .colon then
    if ← isAtType then
      let type ← typeRef
      let usable ← defaultValue true
      let directives ← constantDirectives
      return do
        let n ← n
        let type ← type
        if usable then some ⟨description, n, type, directives⟩ else none
    else
      note .noTypeHere
      return none
  else
    note .noName
    return none

/-- Members between brackets, of which the opening one is the current token. -/
def enclosed {α : Type} (missing : GrammarFault) (closer : Closer)
    (item : Parser (Option α)) : Parser (List α) := do
  advance
  if !((← isAt .name) || (← isAt .string)) then note missing
  let items ← members item
  expect closer
  return items

def argumentDefinitions : Parser (List InputValue) :=
  enclosed .noArgumentDefinition .paren inputValue

def inputFields : Parser (List InputValue) := enclosed .noInputValue .brace inputValue

def field : Parser (Option Field) := do
  let description ← description?
  let n ← name
  let arguments ← if ← isAt .parenL then argumentDefinitions else pure []
  if ← skip .colon then
    if ← isAtType then
      let type ← typeRef
      let directives ← constantDirectives
      return do
        let n ← n
        let type ← type
        return ⟨description, n, arguments, type, directives⟩
    else
      note .noTypeHere
      return none
  else
    note .noFieldType
    return none

def fields : Parser (List Field) := enclosed .noField .brace field

def reservedValues : List String := ["true", "false", "null"]

def enumValueName : Parser (Option Name) := do
  match ← current? with
  | none => return none
  | some t =>
      if t.kind = .name then
        if reservedValues.contains t.text then note .reservedEnumValue
        name
      else
        note .noEnumValue
        return none

def enumValue : Parser (Option EnumValue) := do
  let description ← description?
  let n ← enumValueName
  let directives ← constantDirectives
  return n.map fun n => ⟨description, n, directives⟩

def enumValues : Parser (List EnumValue) := enclosed .noEnumValues .brace enumValue

def namedType (missing : GrammarFault) : Parser (Option String) := do
  return (← nameOr missing).map (·.text)

/-- `implements` and the interfaces behind it. -/
def implements : Parser Unit := do
  advance
  let _ ← separated .amp (namedType .noInterfaceName)

/-- `=` and the members of a union. -/
def unionMembers : Parser (List String) := do
  advance
  separated .pipe (namedType .noUnionMember)

end SchemaLint.Sdl.Parser
