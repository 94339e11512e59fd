import SchemaLint.Sdl.Parser.Value

/-!
# Type references

A name, or a list of a type, with an exclamation mark after it or not. A list
without the type of its items is no type.
-/

namespace SchemaLint.Sdl.Parser

/-- Drops a token that cannot be the type of list items. It leaves no trace in
later positions, and what is ignored behind it is not yet passed over, so it may
be what stands in place of the closing bracket. -/
def dropItemType : Parser Unit := do
  match (← get).ahead with
  | [] => pure ()
  | t :: rest =>
      modify fun s => { s with ahead := rest, dropped := s.dropped + t.text.utf8ByteSize }
      noteAt t.offset .noItemType
      match rest with
      | [] => pure ()
      | next :: _ =>
          match next.trivia with
          | [] => expect .bracket
          | ignored :: _ => noteAt ignored.offset (.unclosed .bracket ignored.text)

/-- The item type of a list and its closing bracket. -/
def itemType (item : Parser (Option TypeRef)) : Parser (Option TypeRef) := do
  if (← isAt .name) || (← isAt .bracketL) then
    let t ← item
    expect .bracket
    return t
  else
    dropItemType
    return none

def bang (type : Option TypeRef) : Parser (Option TypeRef) := do
  if ← skip .bang then return type.map .nonNull else return type

/-- A type, given the production for the items of a list, or none when no level
is left. -/
def typeRefWith (inner : Option (Parser (Option TypeRef))) : Parser (Option TypeRef) := do
  if ← skip .bracketL then
    match inner with
    | none =>
        exhausted
        return none
    | some item =>
        let t ← itemType item
        bang (t.map .list)
  else
    let n ← name
    bang (n.map fun n => .named n.text)

def typeRefIn : (levels : Nat) → Parser (Option TypeRef)
  | 0 => typeRefWith none
  | levels + 1 => typeRefWith (some (typeRefIn levels))

def typeRef : Parser (Option TypeRef) := typeRefIn levelLimit

def isAtType : Parser Bool := return (← isAt .name) || (← isAt .bracketL)

end SchemaLint.Sdl.Parser
