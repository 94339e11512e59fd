import SchemaLint.Yaml.Gap

/-!
# Plain scalars

Text without quotes. It goes on over line ends as long as lines are indented, and
ends at a comment, at a colon before a blank and, inside brackets, at a comma or a
bracket.
-/

namespace SchemaLint.Yaml

def isFlowMark (c : Char) : Bool :=
  c == ',' || c == '[' || c == ']' || c == '\x7b' || c == '\x7d'

/-- Length of the word that a text starts with. Inside brackets a colon must not
stand directly before a mark of the collection. -/
def wordLength? (inFlow : Bool) : List Char → Option Nat
  | [] => some 0
  | c :: cs =>
      if isGap c then some 0
      else if inFlow && c == ':' && cs.head?.any (fun d => isFlowMark d || d == '?') then none
      else if c == ':' && cs.head?.all isGap then some 0
      else if inFlow && isFlowMark c then some 0
      else (wordLength? inFlow cs).map (· + 1)

structure PlainScalar where
  text : List Char
  /-- Right behind the last word. -/
  stop : Position
  /-- Where reading goes on. -/
  next : Cursor
  /-- A line end stands between the last word and what follows. -/
  brokenOff : Bool

/-- Reads words and the gaps before them. -/
def plainWords (inFlow : Bool) (indent : Nat) : Nat → Gap → PlainScalar → Option PlainScalar
  | 0, _, _ => none
  | fuel + 1, gap, soFar =>
      let cursor := soFar.next
      if cursor.atAnyDocumentMark || cursor.startsWith '#' then some soFar
      else
        match wordLength? inFlow cursor.rest with
        | none => none
        | some 0 => some soFar
        | some length =>
            let behind := cursor.skip length
            let text := soFar.text ++ gap.folded ++ cursor.rest.take length
            let next := Gap.ofText behind.rest
            if Gap.hasEarlyTab indent none behind.rest then none
            else
              let read : PlainScalar :=
                ⟨text, behind.position, behind.skipGap, !next.breaks.isEmpty⟩
              if !behind.headIs isGap || (!inFlow && read.next.column < indent) then some read
              else plainWords inFlow indent fuel next read

/-- The plain scalar that starts here. -/
def plainScalar? (inFlow : Bool) (indent : Nat) (cursor : Cursor) : Option PlainScalar :=
  plainWords inFlow indent (cursor.rest.length + 1) ⟨[], []⟩ ⟨[], cursor.position, cursor, false⟩

end SchemaLint.Yaml
