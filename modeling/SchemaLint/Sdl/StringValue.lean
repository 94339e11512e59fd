import SchemaLint.Sdl.Lexer

/-!
# The value of a string token

A quoted string is unescaped. A block string is unindented: the white space that
all its lines but the first begin with is taken off them, blank lines at both
ends go, and what remains is joined by line feeds.
-/

namespace SchemaLint.Sdl

open Text

/-- Value of the hexadecimal digits at the front, with what follows them. -/
def readHex (value : Nat) : List Char → Nat × List Char
  | [] => (value, [])
  | c :: cs =>
      match hexDigit? c with
      | some d => readHex (value * 16 + d) cs
      | none => (value, c :: cs)

def fourHex (cs : List Char) : Nat := (readHex 0 (cs.take 4)).1

/-- The character that a pair of surrogates stands for. -/
def joinSurrogates (lead trail : Nat) : Nat :=
  0x10000 + (lead - 0xD800) * 0x400 + (trail - 0xDC00)

def simpleEscape (c : Char) : Char :=
  if c == 'b' then '\x08'
  else if c == 'f' then '\x0c'
  else if c == 'n' then '\n'
  else if c == 'r' then '\r'
  else if c == 't' then '\t'
  else c

/-- What stands behind `\u`: the character, and how many characters spell it. -/
def unicodeEscape (cs : List Char) : Char × Nat :=
  match cs with
  | '\x7b' :: rest =>
      let (value, behind) := readHex 0 rest
      (Char.ofNat value, cs.length - behind.length + 1)
  | _ =>
      let value := fourHex cs
      if isLeadSurrogate value then (Char.ofNat (joinSurrogates value (fourHex (cs.drop 6))), 10)
      else (Char.ofNat value, 4)

/-- Replaces the escapes of a well-formed string; `skip` characters belong to an
escape that has been read. -/
def unescapeFrom : (skip : Nat) → List Char → List Char
  | _, [] => []
  | skip + 1, _ :: cs => unescapeFrom skip cs
  | 0, c :: cs =>
      if c == '\\' then
        match cs with
        | [] => [c]
        | e :: rest =>
            if e == 'u' then
              let (value, spelled) := unicodeEscape rest
              value :: unescapeFrom (1 + spelled) cs
            else simpleEscape e :: unescapeFrom 1 cs
      else c :: unescapeFrom 0 cs

def unescape (cs : List Char) : List Char := unescapeFrom 0 cs

/-- Lines of a block string, which end at a line feed, a carriage return or both
together. There is always a last line, perhaps an empty one. -/
def blockLines : List Char → List (List Char)
  | [] => [[]]
  | '\r' :: '\n' :: cs => [] :: blockLines cs
  | c :: cs =>
      if c == '\n' || c == '\r' then [] :: blockLines cs
      else
        match blockLines cs with
        | [] => [[c]]
        | l :: ls => (c :: l) :: ls

def isIndent (c : Char) : Bool := c == ' ' || c == '\t'

/-- The least indent of the lines that hold more than white space. -/
def commonIndent (ls : List (List Char)) : Option Nat :=
  (ls.filter fun l => !l.all isIndent).foldl (fun least l =>
    let indent := (l.takeWhile isIndent).length
    match least with
    | none => some indent
    | some n => some (min n indent)) none

/-- A backslash before three quotes only kept them from closing the string. -/
def unescapeQuotes : List Char → List Char
  | '\\' :: '"' :: '"' :: '"' :: cs => '"' :: '"' :: '"' :: unescapeQuotes cs
  | c :: cs => c :: unescapeQuotes cs
  | [] => []

def dropBlankEnds (ls : List (List Char)) : List (List Char) :=
  let blank := fun (l : List Char) => l.all isIndent
  ((ls.dropWhile blank).reverse.dropWhile blank).reverse

def blockValue (raw : List Char) : List Char :=
  let ls := blockLines (unescapeQuotes raw)
  let indent := (commonIndent ls.tail).getD 0
  let unindented := ls.head?.toList ++ ls.tail.map (·.drop indent)
  List.intercalate ['\n'] (dropBlankEnds unindented)

/-- The value of a string token that carries no fault. -/
def stringValue (text : String) : String :=
  match text.toList with
  | '"' :: '"' :: '"' :: cs => String.ofList (blockValue (cs.take (cs.length - 3)))
  | '"' :: cs => String.ofList (unescape cs.dropLast)
  | cs => String.ofList cs

end SchemaLint.Sdl
