import SchemaLint.Number.Binary64
import SchemaLint.Text.Digit

/-!
# Decimal numbers as text

A sign, digits with at most one point among or around them, and an exponent. At
least one digit stands before the exponent, and at least one in it.
-/

namespace SchemaLint.Number

open Text

def digitValue (c : Char) : Nat := c.toNat - '0'.toNat

/-- The number that a run of digits stands for. -/
def ofDigits (cs : List Char) : Nat := cs.foldl (fun n c => 10 * n + digitValue c) 0

/-- Digits and nothing else, and at least one. -/
def naturalOf? (cs : List Char) : Option Nat :=
  if !cs.isEmpty && cs.all isDigit then some (ofDigits cs) else none

/-- An optional sign in front; true for a minus. -/
def splitSign : List Char → Bool × List Char
  | '-' :: cs => (true, cs)
  | '+' :: cs => (false, cs)
  | cs => (false, cs)

def integerOf? (cs : List Char) : Option Int :=
  let (negative, ds) := splitSign cs
  (naturalOf? ds).map fun n => if negative then -(n : Int) else (n : Int)

/-- What follows the digits: nothing, or the mark of an exponent and the exponent. -/
def exponentOf? : List Char → Option Int
  | [] => some 0
  | c :: cs => if c = 'e' || c = 'E' then integerOf? cs else none

/-- Reads a decimal number. -/
def decimalOf? (cs : List Char) : Option Binary64 :=
  let (negative, body) := splitSign cs
  let whole := body.takeWhile isDigit
  let rest := body.dropWhile isDigit
  let (places, rest) :=
    match rest with
    | '.' :: rest => (rest.takeWhile isDigit, rest.dropWhile isDigit)
    | rest => ([], rest)
  match naturalOf? (whole ++ places), exponentOf? rest with
  | some digits, some exponent => some (.ofDecimal negative digits (exponent - places.length))
  | _, _ => none

end SchemaLint.Number
