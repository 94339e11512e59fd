import SchemaLint.Yaml.Cursor

/-!
# Block scalars

Indented lines after a bar or an angle bracket. A literal one keeps its line ends;
a folded one joins lines that start without further indentation. A sign in the
header says what becomes of the line ends at its end, a digit gives the
indentation.
-/

namespace SchemaLint.Yaml

/-- What becomes of line ends at the end: all but one go, all go, or none. -/
inductive Chomping
  | clip
  | strip
  | keep
  deriving DecidableEq, Repr

structure BlockHeader where
  chomping : Chomping
  /-- Indentation beyond that of the parent, if it is given. -/
  increment : Option Nat

def chompingOf? : Option Char → Option Chomping
  | some '+' => some .keep
  | some '-' => some .strip
  | _ => none

/-- A digit other than 0. -/
def incrementOf? (c : Option Char) : Option Nat :=
  c.bind fun c => if '1' ≤ c && c ≤ '9' then some (c.toNat - '0'.toNat) else none

/-- The header behind the indicator: a sign and a digit, in any order. What is
neither is left for the check on the rest of the line. -/
def blockHeader (cursor : Cursor) : BlockHeader × Cursor :=
  match chompingOf? cursor.head? with
  | some chomping =>
      let behind := cursor.skip 1
      match incrementOf? behind.head? with
      | some n => (⟨chomping, some n⟩, behind.skip 1)
      | none => (⟨chomping, none⟩, behind)
  | none =>
      match incrementOf? cursor.head? with
      | some n =>
          let behind := cursor.skip 1
          match chompingOf? behind.head? with
          | some chomping => (⟨chomping, some n⟩, behind.skip 1)
          | none => (⟨.clip, some n⟩, behind)
      | none => (⟨.clip, none⟩, cursor)

/-- Past blanks and a comment; the line must be over then. -/
def skipToLineEnd? (cursor : Cursor) : Option Cursor :=
  let cursor := cursor.skipWhile isSpaceOrTab
  let cursor := if cursor.startsWith '#' then cursor.skipWhile (!isBreak ·) else cursor
  if cursor.atLineEnd then some (cursor.skip 1) else none

/-- Empty lines, and the indentation of the line behind them. -/
structure EmptyLines where
  breaks : List Char
  /-- The furthest column that was reached. -/
  reach : Nat
  next : Cursor

/-- Skips empty lines, and indentation up to a column if one is given. -/
def emptyLines (indent : Option Nat) : Nat → EmptyLines → Option EmptyLines
  | 0, _ => none
  | fuel + 1, soFar =>
      let isLeft (column : Nat) : Bool := indent.all (column < ·)
      let spaces := (soFar.next.rest.takeWhile (· == ' ')).length
      let wanted := match indent with
        | some n => min spaces (n - soFar.next.column)
        | none => spaces
      let cursor := soFar.next.skip wanted
      let reach := max soFar.reach cursor.column
      if isLeft cursor.column && cursor.startsWith '\t' then none
      else
        match cursor.rest with
        | [] => some ⟨soFar.breaks, reach, cursor⟩
        | c :: _ =>
            if isBreak c then emptyLines indent fuel ⟨soFar.breaks ++ [c], reach, cursor.skip 1⟩
            else some ⟨soFar.breaks, reach, cursor⟩

def emptyLinesFrom (indent : Option Nat) (cursor : Cursor) : Option EmptyLines :=
  emptyLines indent (cursor.rest.length + 1) ⟨[], 0, cursor⟩

structure BlockText where
  text : List Char
  /-- The line end of the last line, if it has one. -/
  lastBreak : List Char
  /-- Line ends of empty lines behind it. -/
  emptyBreaks : List Char
  /-- The last line starts with a blank. -/
  indented : Bool
  next : Cursor

/-- The text between the last line and a line that starts with `blank`. -/
def BlockText.joint (isLiteral : Bool) (t : BlockText) (blank : Bool) : List Char :=
  if !isLiteral && t.lastBreak == ['\n'] && !t.indented && !blank then
    if t.emptyBreaks.isEmpty then [' '] else t.emptyBreaks
  else t.lastBreak ++ t.emptyBreaks

/-- Reads the lines that start at a column. -/
def blockLines (isLiteral : Bool) (indent : Nat) : Nat → BlockText → Option BlockText
  | 0, _ => none
  | fuel + 1, soFar =>
      let cursor := soFar.next
      if cursor.column ≠ indent || cursor.atEnd then some soFar
      else
        let blank := cursor.headIs isSpaceOrTab
        let line := cursor.rest.takeWhile (!isBreak ·)
        let behind := cursor.skip line.length
        (emptyLinesFrom (some indent) (behind.skip 1)).bind fun empty =>
          blockLines isLiteral indent fuel
            ⟨soFar.text ++ soFar.joint isLiteral blank ++ line, behind.rest.take 1, empty.breaks,
              blank, empty.next⟩

def BlockText.chomped (t : BlockText) : Chomping → List Char
  | .clip => t.text ++ t.lastBreak
  | .strip => t.text
  | .keep => t.text ++ t.lastBreak ++ t.emptyBreaks

/-- The block scalar that starts here, and what follows it. `parent` is the
indentation of the collection around it, -1 if there is none. -/
def blockScalar? (isLiteral : Bool) (parent : Int) (cursor : Cursor) :
    Option (List Char × Cursor) := do
  let (header, cursor) := blockHeader (cursor.skip 1)
  let cursor ← skipToLineEnd? cursor
  let given := header.increment.map fun n => n + parent.toNat
  let empty ← emptyLinesFrom given cursor
  let indent := given.getD (max empty.reach (max (parent + 1).toNat 1))
  let read ← blockLines isLiteral indent (cursor.rest.length + 1)
    ⟨[], [], empty.breaks, false, empty.next⟩
  return (read.chomped header.chomping, read.next)

end SchemaLint.Yaml
