import SchemaLint.Text.Digit
import SchemaLint.Yaml.Gap

/-!
# Quoted scalars

Between single quotes only the quote itself is special, written twice. Between
double quotes a backslash starts an escape, and one at the end of a line takes the
line end away.
-/

namespace SchemaLint.Yaml

open Text

inductive QuoteStyle
  | single
  | double
  deriving DecidableEq, Repr

def QuoteStyle.mark : QuoteStyle → Char
  | .single => '\''
  | .double => '"'

/-- Characters that a backslash and one character stand for. -/
def simpleEscape? : Char → Option Char
  | '0' => some '\x00'
  | 'a' => some '\x07'
  | 'b' => some '\x08'
  | 't' => some '\t'
  | '\t' => some '\t'
  | 'n' => some '\n'
  | 'v' => some '\x0B'
  | 'f' => some '\x0C'
  | 'r' => some '\r'
  | 'e' => some '\x1B'
  | ' ' => some ' '
  | '"' => some '"'
  | '/' => some '/'
  | '\\' => some '\\'
  | 'N' => some '\u0085'
  | '_' => some '\u00A0'
  | 'L' => some '\u2028'
  | 'P' => some '\u2029'
  | _ => none

/-- How many hexadecimal digits follow the character. -/
def codeLength? : Char → Option Nat
  | 'x' => some 2
  | 'u' => some 4
  | 'U' => some 8
  | _ => none

def hexNumber? (cs : List Char) : Option Nat :=
  cs.foldlM (fun n c => (hexDigit? c).map (16 * n + ·)) 0

def charOfCode? (n : Nat) : Option Char :=
  if n.isValidChar then some (Char.ofNat n) else none

/-- The character that the digits of an escape stand for. -/
def codeEscape? (length : Nat) (cs : List Char) : Option Char :=
  let digits := cs.take length
  if digits.length = length then (hexNumber? digits).bind charOfCode? else none

/-- Characters an escape stands for, and how many characters it takes. -/
def escape? (cs : List Char) : Option (Char × Nat) :=
  match cs with
  | '\\' :: c :: rest =>
      match simpleEscape? c, codeLength? c with
      | some d, _ => some (d, 2)
      | none, some length => (codeEscape? length rest).map (·, 2 + length)
      | none, none => none
  | _ => none

/-- Reads up to the closing quote. `done` holds what was read, last first. -/
def quotedText (style : QuoteStyle) : Nat → List Char → Cursor → Option (List Char × Cursor)
  | 0, _, _ => none
  | fuel + 1, done, cursor =>
      if cursor.atAnyDocumentMark then none
      else
        match cursor.rest with
        | [] => none
        | c :: cs =>
            if isGap c then
              let gap := Gap.ofText cursor.rest
              quotedText style fuel (gap.folded.reverse ++ done) cursor.skipGap
            else if style = .single && c == '\'' && cs.head? == some '\'' then
              quotedText style fuel ('\'' :: done) (cursor.skip 2)
            else if c == style.mark then some (done.reverse, cursor.skip 1)
            else if style = .double && c == '\\' then
              if cs.head?.any isBreak then
                let behind := cursor.skip 2
                let gap := Gap.ofText behind.rest
                quotedText style fuel (gap.breaks.reverse ++ done) behind.skipGap
              else
                match escape? cursor.rest with
                | some (d, length) => quotedText style fuel (d :: done) (cursor.skip length)
                | none => none
            else quotedText style fuel (c :: done) (cursor.skip 1)

/-- The quoted scalar that starts here, and what follows it. -/
def quotedScalar? (style : QuoteStyle) (cursor : Cursor) : Option (List Char × Cursor) :=
  quotedText style (cursor.rest.length + 1) [] (cursor.skip 1)

end SchemaLint.Yaml
