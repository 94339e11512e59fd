/-!
# Sets of characters as tables

A `Toggle` table lists the boundaries of a set of code points in increasing
order: the first member, the first code point after it that is no member, the
next member, and so on. A `Run` is an arithmetic progression of code points, the
shape in which scripts interleave upper and lower case.
-/

namespace SchemaLint.Text

/-- An odd number of boundaries lies at or below a member. -/
def inToggle (bounds : List Nat) (n : Nat) : Bool :=
  (bounds.takeWhile (· ≤ n)).length % 2 == 1

structure Run where
  first : Nat
  last : Nat
  step : Nat

def Run.mem (r : Run) (n : Nat) : Bool :=
  r.first ≤ n && n ≤ r.last && (n - r.first) % r.step == 0

end SchemaLint.Text
