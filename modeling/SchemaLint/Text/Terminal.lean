/-!
# Texts on a terminal

A terminal takes some control characters for commands. `disarmed` writes out those in
a text from elsewhere that goes into a log, so that a reader sees them and the
terminal does not obey them. `withoutCommands` takes commands out of a text, which
leaves what a terminal would show of it.
-/

namespace SchemaLint.Text

/-- ASCII controls that a terminal obeys: bell, backspace, form feed, escape, delete. -/
def terminalControls : List Char := ['\x07', '\x08', '\x0c', '\x1b', '\x7f']

/-- The controls between ASCII and the printable part of Latin-1. -/
def isHighControl (c : Char) : Bool := 0x80 ≤ c.toNat && c.toNat ≤ 0x9F

/-- A byte as two hexadecimal digits. -/
def hexByte (n : Nat) : List Char :=
  let digits := Nat.toDigits 16 n
  List.replicate (2 - digits.length) '0' ++ digits

def disarmChar (c : Char) : List Char :=
  if terminalControls.contains c then ['\\', 'x'] ++ hexByte c.toNat
  else if isHighControl c then ['\\', 'u', '\x7b'] ++ Nat.toDigits 16 c.toNat ++ ['\x7d']
  else [c]

/-- The text with nothing in it that a terminal obeys. Line breaks and tabs stay. -/
def disarmed (s : String) : String := String.ofList (s.toList.flatMap disarmChar)

/-- Where the reading of a command stands. -/
inductive CommandState
  /-- Outside of commands. -/
  | text
  /-- Behind an escape character. -/
  | escape
  /-- Behind characters that only a further one completes. -/
  | designation
  /-- In a control sequence, up to its final character. -/
  | sequence
  /-- In the parameters of a device control string. -/
  | deviceParameters
  | deviceString
  /-- In a string for the operating system, which a bell ends too. -/
  | systemString
  /-- In a string of any other kind. -/
  | plainString
  deriving DecidableEq, Repr

/-- Controls that move on in the text instead of doing something else. -/
def isSpacing (c : Char) : Bool := c == '\t' || c == '\n' || c == '\x0c' || c == '\r'

/-- Characters that show outside of commands. -/
def isShown (c : Char) : Bool := isSpacing c || (' ' ≤ c && c != '\x7f')

/-- The octet that ends a string is among the trailing octets of a character. -/
def holdsTerminator (c : Char) : Bool :=
  let n := c.toNat
  (0x80 ≤ n && n % 64 == 0x1C) || (0x800 ≤ n && n / 64 % 64 == 0x1C) ||
    (0x10000 ≤ n && n / 4096 % 64 == 0x1C)

/-- Behind an escape character. -/
def afterEscape (c : Char) : CommandState :=
  if c ≤ '/' then .designation
  else if c == '[' then .sequence
  else if c == ']' then .systemString
  else if c == 'P' then .deviceParameters
  else if c == 'X' || c == '^' || c == '_' then .plainString
  else if c ≤ '~' then .text
  else .escape

/-- One character of a command, and whether it shows nevertheless: spacing does so in
the midst of a command that is no string. -/
def CommandState.advance (s : CommandState) (c : Char) : CommandState × Bool :=
  let isFinal := '@' ≤ c && c ≤ '~'
  if c == '\x1b' then (.escape, false)
  else if c == '\x18' || c == '\x1a' then (.text, false)
  else
    match s with
    | .text => (.text, isShown c)
    | .escape => if c < ' ' then (.escape, isSpacing c) else (afterEscape c, false)
    | .designation =>
        if c < ' ' then (.designation, isSpacing c)
        else (if '0' ≤ c && c ≤ '~' then .text else .designation, false)
    | .sequence =>
        if c < ' ' then (.sequence, isSpacing c)
        else (if isFinal then .text else .sequence, false)
    | .deviceParameters => (if isFinal then .deviceString else .deviceParameters, false)
    | .deviceString => (if holdsTerminator c then .text else .deviceString, false)
    | .systemString => (if c == '\x07' then .text else .systemString, false)
    | .plainString => (if holdsTerminator c then .text else .plainString, false)

/-- What shows of a text. After spacing in the midst of a command all shows up to the
next control, and the command goes on there; a character beyond ASCII ends it. -/
def shownFrom (s : CommandState) (showing : Bool) : List Char → List Char
  | [] => []
  | c :: cs =>
      if showing && isShown c then
        c :: shownFrom (if c.toNat < 0x80 then s else .text) true cs
      else
        let (s, shown) := s.advance c
        if shown then c :: shownFrom s true cs else shownFrom s false cs

/-- The text without commands to a terminal and without controls other than spacing. -/
def withoutCommands (s : String) : String := String.ofList (shownFrom .text false s.toList)

end SchemaLint.Text
