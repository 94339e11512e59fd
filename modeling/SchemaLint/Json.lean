import SchemaLint.Text.Naming

/-!
# Writing JSON

Values as compact text, or over several lines with an indentation of two spaces.
Members of objects stand in the order of their keys.
-/

namespace SchemaLint

inductive Json
  | text (s : String)
  | number (n : Nat)
  | list (items : List Json)
  | object (members : List (String × Json))

namespace Json

def hexDigitChar (n : Nat) : Char :=
  Char.ofNat (if n < 10 then '0'.toNat + n else 'a'.toNat + (n - 10))

/-- Control characters, quotes and backslashes are escaped. -/
def escape (c : Char) : List Char :=
  match c with
  | '"' => ['\\', '"']
  | '\\' => ['\\', '\\']
  | '\x08' => ['\\', 'b']
  | '\t' => ['\\', 't']
  | '\n' => ['\\', 'n']
  | '\x0C' => ['\\', 'f']
  | '\r' => ['\\', 'r']
  | c =>
      if c.toNat < 32 then
        ['\\', 'u', '0', '0', hexDigitChar (c.toNat / 16), hexDigitChar (c.toNat % 16)]
      else [c]

def renderText (s : String) : String := String.ofList ('"' :: s.toList.flatMap escape ++ ['"'])

/-- Members in the order of their keys. -/
def sortMembers (members : List (String × String)) : List (String × String) :=
  members.mergeSort fun a b => decide (a.1 ≤ b.1)

/-- Parts between brackets on lines of their own, or just the brackets. -/
def bracket (indent left right : String) (parts : List String) : String :=
  if parts.isEmpty then left ++ right
  else
    left ++ "\n" ++ ",\n".intercalate (parts.map (indent ++ "  " ++ ·)) ++ "\n" ++ indent ++ right

mutual

/-- A value on one line. -/
def compact : Json → String
  | .text s => renderText s
  | .number n => toString n
  | .list items => "[" ++ ",".intercalate (compactItems items) ++ "]"
  | .object members =>
      let parts := (sortMembers (compactMembers members)).map fun (key, value) =>
        renderText key ++ ":" ++ value
      "\x7b" ++ ",".intercalate parts ++ "\x7d"

def compactItems : List Json → List String
  | [] => []
  | item :: items => compact item :: compactItems items

def compactMembers : List (String × Json) → List (String × String)
  | [] => []
  | (key, value) :: members => (key, compact value) :: compactMembers members

end

mutual

/-- A value over several lines, all but the first indented. -/
def pretty (indent : String) : Json → String
  | .text s => renderText s
  | .number n => toString n
  | .list items => bracket indent "[" "]" (prettyItems (indent ++ "  ") items)
  | .object members =>
      let parts := (sortMembers (prettyMembers (indent ++ "  ") members)).map fun (key, value) =>
        renderText key ++ ": " ++ value
      bracket indent "\x7b" "\x7d" parts

def prettyItems (indent : String) : List Json → List String
  | [] => []
  | item :: items => pretty indent item :: prettyItems indent items

def prettyMembers (indent : String) : List (String × Json) → List (String × String)
  | [] => []
  | (key, value) :: members => (key, pretty indent value) :: prettyMembers indent members

end

end Json

end SchemaLint
