import SchemaLint.Number.Decimal
import SchemaLint.Yaml.Token

/-!
# What scalars mean

A plain scalar may be nothing, a truth value or a number; anything else is text.
Digits after a leading zero are text, so that `007` stays what it is. A tag of the
format decides what a scalar must be, in whatever way it is written; any other tag
that is not local makes it text.
-/

namespace SchemaLint.Yaml

open Number Text

inductive Meaning
  | nothing
  | boolean (b : Bool)
  /-- An integer that fits into 64 bits, with or without a sign. -/
  | integer (n : Int)
  /-- An integer that needs more bits, up to 128. -/
  | wideInteger
  | floating (x : Binary64)
  | text (s : String)
  /-- A text that is not what its tag says. -/
  | malformed (s : String)
  deriving DecidableEq, Repr

def nullWords : List String := ["~", "null", "Null", "NULL"]

def booleanOf? (s : String) : Option Bool :=
  if ["true", "True", "TRUE"].contains s then some true
  else if ["false", "False", "FALSE"].contains s then some false
  else none

/-- Digits to a base up to 16, at least one. -/
def naturalToBase? (base : Nat) (cs : List Char) : Option Nat :=
  if cs.isEmpty then none
  else cs.foldlM (fun n c => ((hexDigit? c).filter (· < base)).map (base * n + ·)) 0

def withoutSign : List Char → List Char
  | c :: cs => if c = '+' || c = '-' then cs else c :: cs
  | [] => []

/-- Leading zeros make digits text. -/
def isZeroPadded (cs : List Char) : Bool :=
  match withoutSign cs with
  | '0' :: c :: cs => (c :: cs).all isDigit
  | _ => false

/-- Number without a sign: to base 16, 8 or 2 after a mark, else decimal. -/
def magnitude? (cs : List Char) : Option Nat :=
  match cs with
  | '0' :: 'x' :: ds => naturalToBase? 16 ds
  | '0' :: 'o' :: ds => naturalToBase? 8 ds
  | '0' :: 'b' :: ds => naturalToBase? 2 ds
  | _ => if isZeroPadded cs then none else naturalToBase? 10 cs

/-- The integer that a text spells; the sign of a zero is told apart. -/
def signedNatural? : List Char → Option (Bool × Nat)
  | '+' :: cs => (magnitude? cs).map (false, ·)
  | '-' :: cs => (magnitude? cs).map (true, ·)
  | cs => (magnitude? cs).map (false, ·)

/-- A whole number without a minus that fits into 64 bits. -/
def unsigned? (s : String) : Option Nat :=
  match signedNatural? s.toList with
  | some (false, n) => if n < Nat.pow 2 64 then some n else none
  | _ => none

/-- What an integer means by its size; beyond 128 bits it is no integer. -/
def integerMeaning? (isNegative : Bool) (n : Nat) : Option Meaning :=
  if isNegative then
    if n ≤ Nat.pow 2 63 then some (.integer (-(n : Int)))
    else if n ≤ Nat.pow 2 127 then some .wideInteger
    else none
  else
    if n < Nat.pow 2 64 then some (.integer n)
    else if n < Nat.pow 2 128 then some .wideInteger
    else none

/-- Number that is no integer; one beyond the largest finite number is text. -/
def floatingOf? (cs : List Char) : Option Binary64 :=
  let unsigned := if cs.head? = some '+' then cs.tail else cs
  let s := String.ofList unsigned
  if [".inf", ".Inf", ".INF"].contains s then some (.infinite false)
  else if ["-.inf", "-.Inf", "-.INF"].contains (String.ofList cs) then some (.infinite true)
  else if [".nan", ".NaN", ".NAN"].contains (String.ofList cs) then some .notANumber
  else if cs.head? = some '+' && unsigned.head?.any (fun c => c = '+' || c = '-') then none
  else
    match decimalOf? unsigned with
    | some (.finite negative m e) => some (.finite negative m e)
    | _ => none

/-- The integer that a text spells, as far as it is one. -/
def integerOf? (cs : List Char) : Option Meaning :=
  (signedNatural? cs).bind fun (isNegative, n) => integerMeaning? isNegative n

def numberMeaning? (cs : List Char) : Option Meaning :=
  match integerOf? cs with
  | some meaning => some meaning
  | none => if isZeroPadded cs then none else (floatingOf? cs).map .floating

/-- What a plain scalar means. -/
def meaningOf (s : String) : Meaning :=
  if s.isEmpty || nullWords.contains s then .nothing
  else
    match booleanOf? s, numberMeaning? s.toList with
    | some b, _ => .boolean b
    | none, some meaning => meaning
    | none, none => .text s

/-- What a text means that has a tag of the format. -/
def coreMeaning? (tag : Tag) (text : String) : Option Meaning :=
  let orMalformed (meaning : Option Meaning) : Meaning := meaning.getD (.malformed text)
  if tag = .boolean then some (orMalformed ((booleanOf? text).map .boolean))
  else if tag = .integer then some (orMalformed (integerOf? text.toList))
  else if tag = .floating then some (orMalformed ((floatingOf? text.toList).map .floating))
  else if tag = .nothing then
    some (if nullWords.contains text then .nothing else .malformed text)
  else none

/-- What a scalar means. -/
def scalarMeaning (style : ScalarStyle) (tag : Option Tag) (text : String) : Meaning :=
  match tag.bind (coreMeaning? · text) with
  | some meaning => meaning
  | none => if style = .plain && tag.all (·.isLocal) then meaningOf text else .text text

end SchemaLint.Yaml
