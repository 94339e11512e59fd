import SchemaLint.Number.Binary64

/-!
# The shortest decimal

The decimal with the fewest digits that reads back as a given number, and among
those the one nearest to it. It is written without an exponent and with at least
one digit behind the point.
-/

namespace SchemaLint.Number

/-- A positive number with the interval of reals that round to it, all over one
denominator. -/
structure Neighbourhood where
  value : Nat
  low : Nat
  high : Nat
  den : Nat
  /-- The ends of the interval belong to it. -/
  closed : Bool

namespace Neighbourhood

def ofFinite (m : Nat) (e : Int) : Neighbourhood :=
  let below := if m = Nat.pow 2 52 && Binary64.leastExponent < e then 1 else 2
  let (unit, den) := Binary64.fraction 1 (e - 2)
  ⟨4 * m * unit, (4 * m - below) * unit, (4 * m + 2) * unit, den, m % 2 == 0⟩

/-- The fraction `digits · 10 ^ power` over the common denominator, once both sides
are multiplied by the second component. -/
def onGrid (digits den : Nat) (power : Int) : Nat × Nat :=
  match power with
  | .ofNat k => (digits * Nat.pow 10 k * den, 1)
  | .negSucc k => (digits * den, Nat.pow 10 (k + 1))

/-- The decimal reads back as the number. -/
def holds (n : Neighbourhood) (digits : Nat) (power : Int) : Bool :=
  let (x, scale) := onGrid digits n.den power
  if n.closed then n.low * scale ≤ x && x ≤ n.high * scale
  else n.low * scale < x && x < n.high * scale

def distance (n : Neighbourhood) (digits : Nat) (power : Int) : Nat :=
  let (x, scale) := onGrid digits n.den power
  (x - n.value * scale) + (n.value * scale - x)

/-- The power of ten of the first digit. -/
def leadingPower (n : Neighbourhood) : Int :=
  if n.den ≤ n.value then ((Nat.toDigits 10 (n.value / n.den)).length : Int) - 1
  else -(((List.range 400).find? fun j => n.den ≤ n.value * Nat.pow 10 j).getD 400 : Int)

/-- The decimal on the grid of a power of ten at or right below the number. -/
def floorOnGrid (n : Neighbourhood) (power : Int) : Nat :=
  match power with
  | .ofNat k => n.value / (n.den * Nat.pow 10 k)
  | .negSucc k => n.value * Nat.pow 10 (k + 1) / n.den

/-- The better of the two neighbours on a grid, if one of them reads back. -/
def onGrid? (n : Neighbourhood) (power : Int) : Option Nat :=
  let d := n.floorOnGrid power
  match n.holds d power, n.holds (d + 1) power with
  | true, true => if n.distance (d + 1) power < n.distance d power then some (d + 1) else some d
  | true, false => some d
  | false, true => some (d + 1)
  | false, false => none

/-- Digits and power of the shortest decimal. Seventeen digits always suffice. -/
def shortest (n : Neighbourhood) : Nat × Int :=
  let top := n.leadingPower
  ((List.range 17).findSome? fun (k : Nat) =>
    let power := top - (k : Int)
    (n.onGrid? power).map (·, power)).getD (n.floorOnGrid (top - 16), top - 16)

end Neighbourhood

/-- `digits · 10 ^ power` without an exponent. -/
def renderPositional (digits : Nat) (power : Int) : String :=
  match power with
  | .ofNat k => toString (digits * Nat.pow 10 k) ++ ".0"
  | .negSucc k =>
      let places := k + 1
      let ds := Nat.toDigits 10 digits
      let padded := List.replicate (places + 1 - ds.length) '0' ++ ds
      let whole := padded.take (padded.length - places)
      let behind := padded.drop (padded.length - places)
      let trimmed := (behind.reverse.dropWhile (· == '0')).reverse
      String.ofList whole ++ "." ++ (if trimmed.isEmpty then "0" else String.ofList trimmed)

def Binary64.renderShortest : Binary64 → String
  | .finite negative m e =>
      (if negative then "-" else "") ++
        if m = 0 then "0.0"
        else
          let (digits, power) := (Neighbourhood.ofFinite m e).shortest
          renderPositional digits power
  | .infinite negative => if negative then "-inf" else "inf"
  | .notANumber => "NaN"

end SchemaLint.Number
