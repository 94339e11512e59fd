/-!
# Binary floating point numbers

Numbers of 64 bits as exact values: a mantissa of at most 53 bits times a power of
two. Every result is the exact result rounded to the nearest such number, a tie
going to the even mantissa.
-/

namespace SchemaLint.Number

/-- Quotient rounded to the nearest whole number, a tie to the even one. -/
def roundDiv (num den : Nat) : Nat :=
  let q := num / den
  let r := num % den
  if 2 * r < den || (2 * r == den && q % 2 == 0) then q else q + 1

/-- `finite` stands for mantissa · 2 ^ exponent. -/
inductive Binary64
  | finite (negative : Bool) (mantissa : Nat) (exponent : Int)
  | infinite (negative : Bool)
  | notANumber
  deriving DecidableEq, Repr

namespace Binary64

def mantissaBits : Nat := 53

def leastExponent : Int := -1074

/-- The largest exponent of a full mantissa. -/
def greatestExponent : Int := 971

def zero : Binary64 := .finite false 0 leastExponent

/-- `num / (den · 2 ^ e)`, as a fraction of whole numbers. -/
def scaleBy (num den : Nat) (e : Int) : Nat × Nat :=
  match e with
  | .ofNat k => (num, den * Nat.pow 2 k)
  | .negSucc k => (num * Nat.pow 2 (k + 1), den)

/-- The exponent at which a fraction has a full mantissa, or one bit more or less. -/
def roughExponent (num den : Nat) : Int := (num.log2 : Int) - (den.log2 : Int) - 52

/-- The exponent at which a positive fraction has a mantissa of 53 bits, but not
below the least one. -/
def exponentOf (num den : Nat) : Int :=
  let e := roughExponent num den
  let (n, d) := scaleBy num den e
  let e := if n < d * Nat.pow 2 52 then e - 1 else e
  max e leastExponent

/-- The number nearest to a fraction. -/
def ofRatio (negative : Bool) (num den : Nat) : Binary64 :=
  if num = 0 then .finite negative 0 leastExponent
  else
    let e := exponentOf num den
    let (n, d) := scaleBy num den e
    let m := roundDiv n d
    let (m, e) := if m = Nat.pow 2 mantissaBits then (Nat.pow 2 (mantissaBits - 1), e + 1) else (m, e)
    if greatestExponent < e then .infinite negative else .finite negative m e

/-- The value of a finite number without its sign, as a fraction. -/
def fraction (mantissa : Nat) (exponent : Int) : Nat × Nat :=
  match exponent with
  | .ofNat k => (mantissa * Nat.pow 2 k, 1)
  | .negSucc k => (mantissa, Nat.pow 2 (k + 1))

/-- Product with a whole number. -/
def times (x : Binary64) (k : Nat) : Binary64 :=
  match x with
  | .finite negative m e =>
      let (n, d) := fraction m e
      ofRatio negative (n * k) d
  | x => x

/-- The value without its sign as a fraction; what is not finite counts as 0. -/
def magnitude : Binary64 → Nat × Nat
  | .finite _ m e => fraction m e
  | _ => (0, 1)

/-- Sum of two numbers that are finite and not negative. -/
def plus (x y : Binary64) : Binary64 :=
  let (n, d) := x.magnitude
  let (n', d') := y.magnitude
  ofRatio false (n * d' + n' * d) (d * d')

/-- Quotient of a finite number that is not negative and a whole number. -/
def dividedBy (x : Binary64) (k : Nat) : Binary64 :=
  let (n, d) := x.magnitude
  ofRatio false n (d * k)

/-- Of two numbers that are finite and not negative, the first is smaller. -/
def isBelow (x y : Binary64) : Bool :=
  let (n, d) := x.magnitude
  let (n', d') := y.magnitude
  n * d' < n' * d

/-- Decimal exponents beyond which every number is zero or infinite, whatever its
digits: `digits · 10 ^ exponent` with that many digits. -/
def decimalLimit : Nat := 400

/-- The number nearest to `digits · 10 ^ exponent`. -/
def ofDecimal (negative : Bool) (digits : Nat) (exponent : Int) : Binary64 :=
  let size : Int := (Nat.toDigits 10 digits).length
  if digits = 0 || size + exponent < -(decimalLimit : Int) then .finite negative 0 leastExponent
  else if (decimalLimit : Int) < size + exponent then .infinite negative
  else
    match exponent with
    | .ofNat k => ofRatio negative (digits * Nat.pow 10 k) 1
    | .negSucc k => ofRatio negative digits (Nat.pow 10 (k + 1))

end Binary64

end SchemaLint.Number
