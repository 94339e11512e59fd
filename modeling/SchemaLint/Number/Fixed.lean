import SchemaLint.Number.Binary64

/-!
# Two decimal places

The exact value of a number rounded to hundredths, a tie going to the even
hundredth. The sign stays, even on a zero.
-/

namespace SchemaLint.Number

/-- A whole number of hundredths with a point in it. -/
def renderHundredths (n : Nat) : String :=
  let cents := n % 100
  toString (n / 100) ++ "." ++ toString (cents / 10) ++ toString (cents % 10)

namespace Binary64

/-- The value of a finite number in hundredths, without its sign. -/
def hundredths (mantissa : Nat) (exponent : Int) : Nat :=
  let (n, d) := fraction mantissa exponent
  roundDiv (n * 100) d

def renderFixed : Binary64 → String
  | .finite negative m e => (if negative then "-" else "") ++ renderHundredths (hundredths m e)
  | .infinite negative => if negative then "-inf" else "inf"
  | .notANumber => "NaN"

end Binary64

/-- The share of `part` in `total` in percent, 0 of nothing. Counts stay far below
2 ^ 53, so they are numbers themselves and only quotient and product round. -/
def percentage (part total : Nat) : Binary64 :=
  if total = 0 then .zero else (Binary64.ofRatio false part total).times 100

def formatPercentage (x : Binary64) : String := x.renderFixed ++ "%"

end SchemaLint.Number
