/-!
# Edit distance

The Levenshtein distance of two texts, by rows: row `i` holds the distances of
the first `i` characters of one text to every beginning of the other.
-/

namespace SchemaLint.Text

/-- The cells of a row right of its first one. `row` is what remains of the row
above, `diagonal` and `left` are the neighbours of the next cell. -/
def nextCells (x : Char) : List Char → List Nat → Nat → Nat → List Nat
  | y :: ys, up :: row, diagonal, left =>
      let cell := min (min (up + 1) (left + 1)) (if x = y then diagonal else diagonal + 1)
      cell :: nextCells x ys row up cell
  | _, _, _, _ => []

def nextRow (ys : List Char) (row : List Nat) (x : Char) : List Nat :=
  match row with
  | [] => []
  | first :: rest => (first + 1) :: nextCells x ys rest first (first + 1)

/-- Least number of insertions, deletions and substitutions of one character
that turn one text into the other. -/
def editDistance (xs ys : List Char) : Nat :=
  (xs.foldl (nextRow ys) (List.range (ys.length + 1))).getLastD 0

end SchemaLint.Text
