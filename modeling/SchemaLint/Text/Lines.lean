/-!
# Lines of a text

A text is cut after every line feed. `pieces` keeps the line ends, so the pieces
joined are the text again; `lines` drops them, together with one carriage return
that stands right before the line feed. A last line without a line feed keeps
its carriage return, and a line feed at the very end opens no further line.
-/

namespace SchemaLint.Text

def pieces : List Char → List (List Char)
  | [] => []
  | c :: cs =>
      if c = '\n' then [c] :: pieces cs
      else
        match pieces cs with
        | [] => [[c]]
        | p :: ps => (c :: p) :: ps

/-- A piece without its line end. -/
def chomp (piece : List Char) : List Char :=
  match piece.reverse with
  | '\n' :: '\r' :: r => r.reverse
  | '\n' :: r => r.reverse
  | _ => piece

def lines (cs : List Char) : List (List Char) := (pieces cs).map chomp

@[simp] theorem pieces_nil : pieces [] = [] := rfl

@[simp] theorem lines_nil : lines [] = [] := rfl

theorem flatten_pieces (cs : List Char) : (pieces cs).flatten = cs := by
  induction cs with
  | nil => rfl
  | cons c cs ih =>
      simp only [pieces]
      split
      · simp [ih]
      · split <;> simp_all

end SchemaLint.Text
