import SchemaLint.Sdl.StringValue
import SchemaLint.Sdl.Syntax

/-!
# Reading tokens

A production takes the tokens that lie ahead, notes faults and hands on what is
left. It never goes back and never gives up. The first of the tokens ahead is the
current one; behind the end of the text nothing is ahead, and no fault can be
noted any more.
-/

namespace SchemaLint.Sdl

structure State where
  /-- The current token and all after it. -/
  ahead : List Token
  /-- Faults noted so far, the latest first. -/
  faults : List LocatedFault
  /-- Set once nesting went too deep: from then on no fault is noted. -/
  muted : Bool
  /-- Bytes of tokens that were dropped without a trace. They count in no
  position behind them. -/
  dropped : Nat

abbrev Parser := StateM State

def State.start (ts : List Token) : State := ⟨ts, [], false, 0⟩

namespace Parser

def current? : Parser (Option Token) := return (← get).ahead.head?

/-- The token after the current one, unless a comma stands between them. -/
def second? : Parser (Option Token) := do
  match (← get).ahead with
  | _ :: t :: _ => return if t.trivia.any (·.kind == .comma) then none else some t
  | _ => return none

def isAt (kind : TokenKind) : Parser Bool := return (← current?).any (·.kind == kind)

/-- The current token reads `word`. -/
def isAtWord (word : String) : Parser Bool := return (← current?).any (·.text == word)

def advance : Parser Unit := modify fun s => { s with ahead := s.ahead.tail }

/-- Position of the current token in the text that the productions keep. -/
def position : Parser Nat := do
  let s ← get
  return match s.ahead with
    | [] => 0
    | t :: _ => t.offset - s.dropped

def noteAt (offset : Nat) (fault : GrammarFault) : Parser Unit :=
  modify fun s =>
    if s.muted then s else { s with faults := ⟨.grammar fault, offset⟩ :: s.faults }

/-- Notes a fault at the current token. -/
def note (fault : GrammarFault) : Parser Unit := do
  match ← current? with
  | none => pure ()
  | some t => noteAt t.offset fault

/-- Notes a fault at the current token and passes over it. -/
def noteAndAdvance (fault : GrammarFault) : Parser Unit := do
  note fault
  advance

/-- Nesting is too deep to go on: the last fault that is noted. -/
def exhausted : Parser Unit := do
  match ← current? with
  | none => pure ()
  | some _ =>
      note .levelsExhausted
      modify fun s => { s with muted := true }

def Closer.kind : Closer → TokenKind
  | .brace => .braceR
  | .paren => .parenR
  | .bracket => .bracketR

def expect (closer : Closer) : Parser Unit := do
  match ← current? with
  | none => pure ()
  | some t => if t.kind = Closer.kind closer then advance else note (.unclosed closer t.shown)

/-- Passes over the current token if it is of that kind, and says whether it was. -/
def skip (kind : TokenKind) : Parser Bool := do
  if ← isAt kind then
    advance
    return true
  else return false

/-- Passes over the current token if it reads `word`. -/
def skipWord (word : String) : Parser Unit := do
  if ← isAtWord word then advance

/-- At most `turns` turns of `many`. -/
def atMost {α : Type} (step : Parser (Option α)) : (turns : Nat) → Parser (List α)
  | 0 => return []
  | turns + 1 => do
      match ← step with
      | none => return []
      | some a => return a :: (← atMost step turns)

/-- Takes `step` until it yields nothing. A step that yields uses up a token, so
the tokens ahead bound the number of turns. -/
def many {α : Type} (step : Parser (Option α)) : Parser (List α) := do
  atMost step ((← get).ahead.length + 1)

/-- Takes `item` as long as the current token is a name or a string. -/
def members {α : Type} (item : Parser (Option α)) : Parser (List α) := do
  let items ← many do
    if (← isAt .name) || (← isAt .string) then return some (← item) else return none
  return items.filterMap id

/-- Items with a separator between them, and perhaps one in front. -/
def separated {α : Type} (separator : TokenKind) (item : Parser (Option α)) :
    Parser (List α) := do
  let _ ← skip separator
  let first ← item
  let rest ← many do
    if ← skip separator then return some (← item) else return none
  return (first :: rest).filterMap id

/-- A name, or the fault that there is none. -/
def nameOr (missing : GrammarFault) : Parser (Option Name) := do
  let offset ← position
  match ← current? with
  | some t =>
      if t.kind = .name then
        advance
        return some ⟨t.text, offset⟩
      else
        note missing
        return none
  | none => return none

def name : Parser (Option Name) := nameOr .noName

def description? : Parser (Option String) := do
  match ← current? with
  | some t =>
      if t.kind = .string then
        advance
        return some (stringValue t.text)
      else return none
  | none => return none

end Parser

end SchemaLint.Sdl
