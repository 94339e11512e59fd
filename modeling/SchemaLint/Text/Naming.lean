import SchemaLint.Text.Blank
import SchemaLint.Text.Uppercase

/-!
# Conventions of spelling and order

What the rules ask of a single name, of a description and of a list of names.
Names are ordered by their bytes, which for valid text is the order of their
code points.
-/

namespace SchemaLint.Text

/-- No underscore, and a first character from `a` to `z`. -/
def isCamelCase (name : String) : Bool :=
  match name.toList with
  | [] => false
  | c :: cs => !(c :: cs).contains '_' && 'a' ≤ c && c ≤ 'z'

/-- The first character that is not blank is a capital. A blank text passes. -/
def isCapitalized (description : String) : Bool :=
  match trim description.toList with
  | [] => true
  | c :: _ => isUppercase c

def sorted (names : List String) : List String := names.mergeSort (fun a b => decide (a ≤ b))

theorem pairwise_sorted (names : List String) : (sorted names).Pairwise (· ≤ ·) := by
  have htrans : ∀ a b c : String, decide (a ≤ b) = true → decide (b ≤ c) = true →
      decide (a ≤ c) = true := by
    intro a b c hab hbc
    rw [decide_eq_true_eq] at *
    exact String.le_trans hab hbc
  have htotal : ∀ a b : String, (decide (a ≤ b) || decide (b ≤ a)) = true := by
    intro a b
    simpa using String.le_total a b
  exact (List.pairwise_mergeSort htrans htotal names).imp fun hab => of_decide_eq_true hab

/-- The arrangement that a complaint about the order of names spells out. -/
def expectedSorting (names : List String) : String := ", ".intercalate (sorted names)

/-- The first place where the names leave their sorted arrangement. -/
def firstUnsorted? (names : List String) : Option Nat :=
  (names.zip (sorted names)).findIdx? fun (seen, expected) => seen != expected

end SchemaLint.Text
