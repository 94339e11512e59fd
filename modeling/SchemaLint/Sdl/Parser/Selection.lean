import SchemaLint.Sdl.Parser.TypeRef

/-!
# Selections

Selection sets occur in operations, in fragments and in the field sets of
federation directives. What is kept of a selection set is the list of the fields
that stand in it directly, by name.
-/

namespace SchemaLint.Sdl.Parser

def fragmentName : Parser Unit := do
  match ← current? with
  | some t =>
      if t.kind = .name then
        if t.text == "on" then note .reservedFragmentName else advance
      else note .noFragmentName
  | none => pure ()

def typeCondition : Parser Unit := do
  if ← isAtWord "on" then advance else note .noTypeCondition
  if ← isAt .name then advance else note .noTypeConditionName

/-- What follows a spread. -/
def fragment (nested : Parser (List String)) (levels : Nat) : Parser Unit := do
  let next ← second?
  if next.any fun t => t.kind == .name && t.text != "on" then
    advance
    fragmentName
    let _ ← directives false levels
  else if next.any fun t => t.kind == .atSign || t.kind == .name || t.kind == .braceL then
    advance
    if ← isAt .name then typeCondition
    let _ ← directives false levels
    if ← isAt .braceL then
      let _ ← nested
    else note .noInlineSelectionSet
  else
    note .noFragmentAfterSpread
    advance

def selectedField (nested : Parser (List String)) (levels : Nat) : Parser (Option String) := do
  if (← second?).any (·.kind == .colon) then
    advance
    advance
  let n ← name
  if ← isAt .parenL then
    let _ ← arguments false levels
  let _ ← directives false levels
  if ← isAt .braceL then
    let _ ← nested
  return n.map (·.text)

/-- Selections one after the other, given the production for a set inside them. -/
def selections (nested : Parser (List String)) (levels : Nat) : Parser (List String) := do
  let items ← many do
    if ← isAt .spread then
      fragment nested levels
      return some none
    else if ← isAt .name then return some (← selectedField nested levels)
    else return none
  if items.isEmpty then note .noSelection
  return items.filterMap id

def selectionSet : (levels : Nat) → Parser (List String)
  | 0 => do
      advance
      exhausted
      return []
  | levels + 1 => do
      advance
      let fields ← selections (selectionSet levels) levels
      expect .brace
      return fields

/-- Either a selection set, or bare selections, which count as one level. -/
def fieldSet (braced : Bool) : Parser (List String) :=
  if braced then selectionSet levelLimit
  else selections (selectionSet (levelLimit - 1)) (levelLimit - 1)

end SchemaLint.Sdl.Parser
