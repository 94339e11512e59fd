import SchemaLint.Sdl.Parser.Basic

/-!
# Values, arguments and directives

A value may hold values. Each level of nesting is counted, and the number of
levels that are left is what the recursion goes down on.
-/

namespace SchemaLint.Sdl

/-- How deep values, types and selections may nest. -/
def levelLimit : Nat := 500

namespace Parser

/-- Notes a fault, and passes over the token if asked to. -/
def complain (pass : Bool) (fault : GrammarFault) : Parser Unit :=
  if pass then noteAndAdvance fault else note fault

/-- The items of a list value up to its bracket. -/
def listItems (inner : Option (Parser (Option Value))) : Parser (List Unit) :=
  many do
    match ← current? with
    | none => return none
    | some t =>
        if t.kind = .bracketR then
          advance
          return none
        else if t.kind = .endOfText then return none
        else
          match inner with
          | none =>
              exhausted
              return none
          | some item =>
              let _ ← item
              return some ()

/-- The fields of an object value up to what is no name. -/
def objectFields (inner : Option (Parser (Option Value))) : Parser (List Unit) :=
  many do
    if ← isAt .name then
      let _ ← name
      if ← skip .colon then
        match inner with
        | none => exhausted
        | some item => let _ ← item
      return some ()
    else return none

/-- A value, given the production for the values inside it, or none when no
level is left. A value without its parts counts as no value. -/
def valueWith (constant : Bool) (inner : Option (Parser (Option Value))) (pass : Bool) :
    Parser (Option Value) := do
  match ← current? with
  | none => return none
  | some t =>
      match t.kind with
      | .dollar =>
          if constant then complain pass .variableInConstant
          advance
          return (← name).map fun _ => .other
      | .string =>
          advance
          return some (.string (stringValue t.text))
      | .int | .float | .name =>
          advance
          return some .other
      | .bracketL =>
          advance
          let _ ← listItems inner
          return some .other
      | .braceL =>
          advance
          let _ ← objectFields inner
          expect .brace
          return some .other
      | _ =>
          complain pass .noValue
          return none

def value (constant : Bool) : (levels : Nat) → (pass : Bool) → Parser (Option Value)
  | 0, pass => valueWith constant none pass
  | levels + 1, pass => valueWith constant (some (value constant levels true)) pass

/-- An argument without a value is no fault, and is not kept. -/
def argument (constant : Bool) (levels : Nat) : Parser (Option Argument) := do
  let n ← name
  if ← skip .colon then
    let v ← value constant levels false
    return do
      let n ← n
      let v ← v
      return ⟨n.text, v⟩
  else return none

def arguments (constant : Bool) (levels : Nat) : Parser (List Argument) := do
  advance
  if !(← isAt .name) then note .noArgument
  let items ← many do
    if ← isAt .name then return some (← argument constant levels) else return none
  expect .paren
  return items.filterMap id

def directive (constant : Bool) (levels : Nat) : Parser (Option Directive) := do
  let offset ← position
  advance
  let n ← name
  let args ← if ← isAt .parenL then arguments constant levels else pure []
  return n.map fun n => ⟨n.text, args, offset⟩

def directives (constant : Bool) (levels : Nat) : Parser (List Directive) := do
  let items ← many do
    if ← isAt .atSign then return some (← directive constant levels) else return none
  return items.filterMap id

/-- Directives of a definition. -/
def constantDirectives : Parser (List Directive) := directives true levelLimit

/-- `=` and a value. Yields false when the value is missing. -/
def defaultValue (constant : Bool) : Parser Bool := do
  if ← skip .equals then return (← value constant levelLimit false).isSome
  else return true

end Parser

end SchemaLint.Sdl
