import SchemaLint.Rule.Basic
import SchemaLint.Sdl.Token
import SchemaLint.Text.Alphanumeric
import SchemaLint.Text.Distance

/-!
# Spelling of enum values

Enum values are identifiers. A digit in one often betrays a slip, and where the
value resembles the name of a scalar that name is suggested.
-/

namespace SchemaLint.Rule

open Sdl Text

/-- A letter or underscore, then letters, digits and underscores of any script. -/
def isValidEnumValue (value : String) : Bool :=
  match value.toList with
  | [] => false
  | c :: cs => (isAlphabetic c || c == '_') && cs.all fun c => isAlphanumeric c || c == '_'

/-- The value holds a digit from 0 to 9. -/
def isSuspiciousEnumValue (value : String) : Bool := value.toList.any isDigit

/-- Slips that are known, with what was meant. -/
def enumCorrections : List (String × String) :=
  [("STRING1", "STRING"), ("STRING2", "STRING"), ("INT1", "INT"), ("INT2", "INT"),
    ("INT32", "INT"), ("INT64", "INT"), ("FLOAT1", "FLOAT"), ("FLOAT2", "FLOAT"),
    ("BOOLEAN1", "BOOLEAN"), ("BOOL1", "BOOLEAN"), ("ID1", "ID")]

def standardEnumNames : List String := ["STRING", "BOOLEAN", "FLOAT", "INT", "INTEGER", "ID"]

def withoutDigits (value : String) : List Char := value.toList.filter (!isDigit ·)

def suggestionDistance : Nat := 2

/-- A known correction, else the standard name that is left without the digits,
else the first standard name close to it. -/
def suggestEnumValue? (value : String) : Option String :=
  let stripped := withoutDigits value
  (enumCorrections.find? (·.1 == value)).map (·.2) <|>
    standardEnumNames.find? (·.toList == stripped) <|>
    standardEnumNames.find? (editDistance stripped ·.toList ≤ suggestionDistance)

/-- Enum values of definitions and extensions, each with its type. -/
def ownedEnumValues (doc : SchemaDocument) : List (String × EnumValue) :=
  doc.definitions.flatMap fun d => d.body.enumValues.map fun v => (d.name.text, v)

def invalidEnumValue : Rule where
  id := "invalid-enum-value"
  description :=
    "Enum values start with a letter or underscore and contain only letters, digits and underscores"
  group := .core
  findings doc :=
    ((ownedEnumValues doc).filter fun (_, v) => !isValidEnumValue v.name.text).map
      fun (owner, v) =>
        doc.finding v.name
          ("Enum value " ++ tickedMember owner v.name.text ++ " is not a valid identifier.")

def digitText (owner value : String) : String :=
  "Enum value " ++ tickedMember owner value ++ " contains a digit." ++
    match suggestEnumValue? value with
    | some suggestion => " Did you mean " ++ ticked suggestion ++ "?"
    | none => ""

def suspiciousEnumValue : Rule where
  id := "suspicious-enum-value"
  description := "Enum values do not contain digits"
  group := .core
  findings doc :=
    ((ownedEnumValues doc).filter fun (_, v) => isSuspiciousEnumValue v.name.text).map
      fun (owner, v) =>
        { doc.finding v.name (digitText owner v.name.text) with value := some v.name.text }

end SchemaLint.Rule
