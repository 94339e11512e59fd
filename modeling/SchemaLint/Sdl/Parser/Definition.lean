import SchemaLint.Sdl.Parser.Members
import SchemaLint.Sdl.Parser.Selection

/-!
# Definitions

Each definition starts at its description or at its keyword. A definition
without a name is not kept. Parts of a definition are optional, but an extension
has to have one.
-/

namespace SchemaLint.Sdl.Parser

/-- What a definition has behind its name. -/
structure Parts where
  directives : List Directive
  body : Body
  /-- There was at least one part. -/
  present : Bool

/-- A part if the current token opens it. -/
def optional {α : Type} (opener : TokenKind) (part : Parser (List α)) :
    Parser (Bool × List α) := do
  if ← isAt opener then return (true, ← part) else return (false, [])

def optionalImplements : Parser Bool := do
  if ← isAtWord "implements" then
    implements
    return true
  else return false

def objectParts (body : List Field → Body) : Parser Parts := do
  let i ← optionalImplements
  let (d, ds) ← optional .atSign constantDirectives
  let (f, fs) ← optional .braceL fields
  return ⟨ds, body fs, i || d || f⟩

def enumParts : Parser Parts := do
  let (d, ds) ← optional .atSign constantDirectives
  let (v, vs) ← optional .braceL enumValues
  return ⟨ds, .enum vs, d || v⟩

def inputParts : Parser Parts := do
  let (d, ds) ← optional .atSign constantDirectives
  let (f, fs) ← optional .braceL inputFields
  return ⟨ds, .input fs, d || f⟩

def unionParts : Parser Parts := do
  let (d, ds) ← optional .atSign constantDirectives
  let (m, ms) ← optional .equals unionMembers
  return ⟨ds, .union ms, d || m⟩

def scalarParts : Parser Parts := do
  let (d, ds) ← optional .atSign constantDirectives
  return ⟨ds, .scalar, d⟩

def typeParts : TypeKind → Parser Parts
  | .object => objectParts .object
  | .interface => objectParts .interface
  | .input => inputParts
  | .enum => enumParts
  | .union => unionParts
  | .scalar => scalarParts

def missingName : TypeKind → GrammarFault
  | .object => .noObjectName
  | _ => .noName

def missingParts : TypeKind → GrammarFault
  | .object => .nothingToExtendObject
  | .interface => .nothingToExtendInterface
  | .input => .nothingToExtendInput
  | .enum => .nothingToExtendEnum
  | .union => .nothingToExtendUnion
  | .scalar => .nothingToExtendScalar

def typeDefinition (kind : TypeKind) : Parser (Option Definition) := do
  let offset ← position
  let description ← description?
  skipWord kind.keyword
  let n ← nameOr (missingName kind)
  let parts ← typeParts kind
  return n.map fun n => ⟨false, description, n, parts.directives, parts.body, offset⟩

def typeExtension (kind : TypeKind) : Parser (Option Definition) := do
  let offset ← position
  advance
  advance
  let n ← name
  let parts ← typeParts kind
  if !parts.present then note (missingParts kind)
  return n.map fun n => ⟨true, none, n, parts.directives, parts.body, offset⟩

def operationKeywords : List String := ["query", "mutation", "subscription"]

/-- The type of an operation, at a name. -/
def operationType : Parser Unit := do
  if (← current?).any fun t => operationKeywords.contains t.text then advance
  else noteAndAdvance .unknownOperation

def rootOperation : Parser Unit := do
  operationType
  if ← skip .colon then
    if ← isAt .name then advance
  else note .noRootOperationName

/-- Root operations, and whether there is one. -/
def rootOperations : Parser Bool := do
  let items ← many do
    if ← isAt .name then
      rootOperation
      return some ()
    else return none
  return !items.isEmpty

def schemaDefinition : Parser Unit := do
  let _ ← description?
  skipWord "schema"
  let _ ← constantDirectives
  if ← skip .braceL then
    if !(← rootOperations) then note .noRootOperation
    expect .brace

def schemaExtension : Parser Unit := do
  advance
  advance
  let (d, _) ← optional .atSign constantDirectives
  let r ← if ← skip .braceL then
      let r ← rootOperations
      expect .brace
      pure r
    else pure false
  if !(d || r) then note .nothingToExtendSchema

def directiveLocations : List String :=
  ["QUERY", "MUTATION", "SUBSCRIPTION", "FIELD", "FRAGMENT_DEFINITION", "FRAGMENT_SPREAD",
    "INLINE_FRAGMENT", "VARIABLE_DEFINITION", "SCHEMA", "SCALAR", "OBJECT", "FIELD_DEFINITION",
    "ARGUMENT_DEFINITION", "INTERFACE", "UNION", "ENUM", "ENUM_VALUE", "INPUT_OBJECT",
    "INPUT_FIELD_DEFINITION"]

def directiveLocation : Parser (Option Unit) := do
  match ← current? with
  | none => return none
  | some t =>
      if t.kind = .name then
        if directiveLocations.contains t.text then advance else note .invalidLocation
      else note .noLocation
      return none

def directiveDefinition : Parser Unit := do
  let _ ← description?
  skipWord "directive"
  if !(← skip .atSign) then note .noAtSign
  let _ ← name
  if ← isAt .parenL then
    let _ ← argumentDefinitions
  skipWord "repeatable"
  if ← isAtWord "on" then advance else note .noLocations
  if (← isAt .name) || (← isAt .pipe) then
    let _ ← separated .pipe directiveLocation
  else note .invalidLocation

def variableDefinition : Parser Unit := do
  advance
  let _ ← name
  if ← skip .colon then
    if ← isAtType then
      let _ ← typeRef
      let _ ← defaultValue true
      let _ ← constantDirectives
    else note .noTypeHere
  else note .noName

def variableDefinitions : Parser Unit := do
  advance
  if !(← isAt .dollar) then note .noVariable
  let _ ← many do
    if ← isAt .dollar then
      variableDefinition
      return some ()
    else return none
  expect .paren

def operation : Parser Unit := do
  if ← isAt .name then
    operationType
    if ← isAt .name then advance
    if ← isAt .parenL then variableDefinitions
    let _ ← directives false levelLimit
    if ← isAt .braceL then
      let _ ← selectionSet levelLimit
    else noteAndAdvance .noSelectionSetHere
  else if ← isAt .braceL then
    let _ ← selectionSet levelLimit
  else noteAndAdvance .noOperation

def fragmentDefinition : Parser Unit := do
  advance
  fragmentName
  typeCondition
  let _ ← directives false levelLimit
  if ← isAt .braceL then
    let _ ← selectionSet levelLimit
  else note .noFragmentSelectionSet

/-- An extension, told apart by the word behind the current token. -/
def extension : Parser (Option Definition) := do
  let word := ((← second?).map (·.text)).getD ""
  match TypeKind.ofKeyword? word with
  | some kind => typeExtension kind
  | none =>
      if word == "schema" then schemaExtension else noteAndAdvance .unknownExtension
      return none

/-- The definition that a word announces. -/
def definition (word : String) : Parser (Option Definition) := do
  match TypeKind.ofKeyword? word with
  | some kind => typeDefinition kind
  | none =>
      if word == "extend" then extension
      else
        if word == "directive" then directiveDefinition
        else if word == "fragment" then fragmentDefinition
        else if word == "schema" then schemaDefinition
        else if operationKeywords.contains word || word == "\x7b" then operation
        else noteAndAdvance .noDefinition
        return none

/-- One definition, or nothing at the end of the text. -/
def nextDefinition : Parser (Option (Option Definition)) := do
  match ← current? with
  | none => return none
  | some t =>
      match t.kind with
      | .endOfText => return none
      | .string => return some (← definition (((← second?).map (·.text)).getD ""))
      | .name | .braceL => return some (← definition t.text)
      | _ =>
          noteAndAdvance .noDefinitionHere
          return some none

def document : Parser (List Definition) := do
  if ← isAt .endOfText then note .emptyDocument
  let items ← many nextDefinition
  return items.filterMap id

end SchemaLint.Sdl.Parser
