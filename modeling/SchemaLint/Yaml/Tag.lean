import SchemaLint.Text.Digit
import SchemaLint.Yaml.Cursor

/-!
# Tags

A tag says what kind of data a node holds. It is written in full between angle
brackets, or with a handle that stands for how it starts. A tag that starts with an
exclamation mark is local: it means something to the reader of a document only.
Octets may be written as escapes, so a tag need not be text.
-/

namespace SchemaLint.Yaml

open Text

/-- Characters of the names of anchors, directives and handles. -/
def isNameChar (c : Char) : Bool := c.isAlphanum || c == '_' || c == '-'

abbrev Octets := List UInt8

def octetsOf (s : String) : Octets := s.toList.flatMap String.utf8EncodeChar

structure Tag where
  octets : Octets
  deriving DecidableEq, Repr

namespace Tag

/-- The start of the tags that the format itself defines. -/
def coreStart : Octets := octetsOf "tag:yaml.org,2002:"

def core (name : String) : Tag := ⟨coreStart ++ octetsOf name⟩

def boolean : Tag := core "bool"

def integer : Tag := core "int"

def floating : Tag := core "float"

def nothing : Tag := core "null"

/-- The mark of local tags alone. -/
def bare : Tag := ⟨octetsOf "!"⟩

def isLocal (t : Tag) : Bool := t.octets.head? == bare.octets.head?

/-- The name of a local tag, if it is text. -/
def localName? (t : Tag) : Option String :=
  if t.isLocal then String.fromUTF8? ⟨t.octets.tail.toArray⟩ else none

end Tag

/-- Characters of a tag that stand for themselves. Between angle brackets these are
more. -/
def isTagChar (inBrackets : Bool) (c : Char) : Bool :=
  isNameChar c ||
    [';', '/', '?', ':', '@', '&', '=', '+', '$', '.', '!', '~', '*', '\'', '(', ')'].contains c ||
    (inBrackets && [',', '[', ']'].contains c)

/-- How many octets follow the first one of a character. -/
def octetsBehind? (octet : Nat) : Option Nat :=
  if octet < 0x80 then some 0
  else if octet < 0xC0 then none
  else if octet < 0xE0 then some 1
  else if octet < 0xF0 then some 2
  else if octet < 0xF8 then some 3
  else none

/-- How many octets are owed after an escaped one. -/
def owedAfter? (owed octet : Nat) : Option Nat :=
  match owed with
  | 0 => octetsBehind? octet
  | owed + 1 => if 0x80 ≤ octet && octet < 0xC0 then some owed else none

/-- The octets that a text starts with as part of a tag, and how many characters they
take. Escapes of a character stand together; `owed` of them are still to come. -/
def tagOctets? (inBrackets : Bool) (owed : Nat) : List Char → Option (Octets × Nat)
  | '%' :: a :: b :: cs => do
      let octet := 16 * (← hexDigit? a) + (← hexDigit? b)
      let (octets, length) ← tagOctets? inBrackets (← owedAfter? owed octet) cs
      return (octet.toUInt8 :: octets, length + 3)
  | c :: cs =>
      if 0 < owed || c == '%' then none
      else if isTagChar inBrackets c then do
        let (octets, length) ← tagOctets? inBrackets 0 cs
        return (String.utf8EncodeChar c ++ octets, length + 1)
      else some ([], 0)
  | [] => if 0 < owed then none else some ([], 0)

/-- An octet of value 0 ends a tag. -/
def untilNull (octets : Octets) : Octets := octets.takeWhile (· != 0)

/-- A tag as it is written: a handle, which is empty for a tag in full, and the rest. -/
structure TagText where
  handle : String
  suffix : Octets
  /-- Characters that it takes. -/
  length : Nat
  deriving DecidableEq, Repr

/-- The tag in brackets that starts behind the first of them. -/
def fullTag? (cs : List Char) : Option TagText := do
  let (octets, length) ← tagOctets? true 0 cs
  if length = 0 || (cs.drop length).head? != some '>' then none
  return ⟨"", untilNull octets, length + 3⟩

/-- A handle with its two marks around a name, which may be empty. -/
def handleOf (name : List Char) : String := String.ofList ('!' :: name ++ ['!'])

/-- The tag behind its first mark. One without a second mark is local, and nothing but
the mark is a tag too. -/
def shortTag? (cs : List Char) : Option TagText := do
  let name := cs.takeWhile isNameChar
  let behind := cs.drop name.length
  if behind.head? = some '!' then
    let (octets, length) ← tagOctets? false 0 behind.tail
    if length = 0 then none
    return ⟨handleOf name, untilNull octets, name.length + length + 2⟩
  else
    let (octets, length) ← tagOctets? false 0 cs
    let suffix := untilNull octets
    return if suffix.isEmpty then ⟨"", Tag.bare.octets, length + 1⟩ else ⟨"!", suffix, length + 1⟩

/-- The tag that a text starts with. -/
def tagText? : List Char → Option TagText
  | '!' :: '<' :: cs => fullTag? cs
  | '!' :: cs => shortTag? cs
  | _ => none

/-- Handles with what they stand for. -/
abbrev Handles := List (String × Octets)

/-- Handles that every document has, unless it gives them another meaning. -/
def defaultHandles : Handles := [("!", Tag.bare.octets), ("!!", Tag.coreStart)]

/-- The tag that a handle and a suffix stand for. -/
def Tag.resolve? (handles : Handles) (handle : String) (suffix : Octets) : Option Tag :=
  if handle.isEmpty then some ⟨suffix⟩
  else (handles.lookup handle).map fun start => ⟨start ++ suffix⟩

end SchemaLint.Yaml
