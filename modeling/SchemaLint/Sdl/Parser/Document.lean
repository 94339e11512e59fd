import SchemaLint.Sdl.Parser.Definition

/-!
# Reading a whole text

The definitions of a text and the faults found in it, lexical and grammatical
ones together in the order of their positions. A field set is read with the
same productions; only what was looked at counts as read.
-/

namespace SchemaLint.Sdl

/-- Faults of two kinds in the order of their positions. -/
def mergeFaults (lexical grammar : List LocatedFault) : List LocatedFault :=
  lexical.merge grammar fun a b => a.offset ≤ b.offset

structure Reading where
  definitions : List Definition
  faults : List LocatedFault

/-- Reads a schema text. -/
def read (text : String) : Reading :=
  let (definitions, s) := Parser.document.run (.start (tokens text))
  ⟨definitions, mergeFaults (lexicalFaults (lexemes text)) s.faults.reverse⟩

/-- The fields that a field set names at its top, or the first fault in it. A
lexical fault counts if it lies before the token at which reading stopped. -/
def readFieldSet (text : String) : Except Fault (List String) :=
  let braced := text.toList.head? == some '\x7b'
  let (fields, s) := (Parser.fieldSet braced).run (.start (tokens text))
  let seen := (lexicalFaults (lexemes text)).filter fun f =>
    s.ahead.head?.all (f.offset < ·.offset)
  match mergeFaults seen s.faults.reverse with
  | [] => .ok fields
  | f :: _ => .error f.fault

end SchemaLint.Sdl
