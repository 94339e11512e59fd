import SchemaLint.Number.Binary64

/-!
# Similarity of words

The share of characters that two words have in common at nearly the same place,
between 0 and 1, with pairs that stand in another order counted half. Words of
which none is left to match have similarity 0.
-/

namespace SchemaLint.Text

open Number

/-- Marks the first free character equal to `x` in a window. The number is the place
of the head of the list. -/
def takeMatch? (x : Char) (low high : Nat) : Nat → List (Char × Bool) → Option (List (Char × Bool))
  | _, [] => none
  | place, (y, isTaken) :: rest =>
      if low ≤ place && place < high && y == x && !isTaken then some ((y, true) :: rest)
      else (takeMatch? x low high (place + 1) rest).map ((y, isTaken) :: ·)

/-- Pairs the characters of a word, from some place on, with those of another one
not further away than `range`. Gives the paired ones and the marks on the other. -/
def pairUp (range : Nat) : Nat → List Char → List (Char × Bool) → List Char × List (Char × Bool)
  | _, [], ys => ([], ys)
  | place, x :: xs, ys =>
      match takeMatch? x (place - range) (place + range + 1) 0 ys with
      | some ys =>
          let (paired, ys) := pairUp range (place + 1) xs ys
          (x :: paired, ys)
      | none => pairUp range (place + 1) xs ys

def similarity (xs ys : List Char) : Binary64 :=
  if xs.isEmpty && ys.isEmpty then .ofRatio false 1 1
  else
    let range := max xs.length ys.length / 2 - 1
    let (paired, marks) := pairUp range 0 xs (ys.map (·, false))
    let others := (marks.filter (·.2)).map (·.1)
    let common := paired.length
    let swapped := (paired.zip others).countP (fun (x, y) => x != y) / 2
    if common = 0 then .zero
    else
      (((Binary64.ofRatio false common xs.length).plus (.ofRatio false common ys.length)).plus
        (.ofRatio false (common - swapped) common)).dividedBy 3

/-- Similarity from which on a word is taken for a slip of another one: 0.7. -/
def similarityThreshold : Binary64 := .ofRatio false 7 10

/-- The most similar word, the last of several, if one is similar enough. -/
def mostSimilar? (word : String) (candidates : List String) : Option String :=
  let scored := candidates.map fun c => (similarity word.toList c.toList, c)
  let close := scored.filter fun (score, _) => similarityThreshold.isBelow score
  let best := close.foldl (fun best next =>
    match best with
    | none => some next
    | some b => if next.1.isBelow b.1 then some b else some next) none
  best.map (·.2)

end SchemaLint.Text
