import SchemaLint.Yaml.Tag

/-!
# Tokens of a document

Indentation is made explicit: a block collection has a token where it starts and
one where it ends, and every key of a mapping one before it.
-/

namespace SchemaLint.Yaml

/-- How a scalar is written. -/
inductive ScalarStyle
  | plain
  | quoted
  /-- Indented lines that stay lines. -/
  | literal
  /-- Indented lines that are joined. -/
  | folded
  deriving DecidableEq, Repr

inductive TokenKind
  /-- A directive that names the version of the format. -/
  | version (major minor : Nat)
  /-- A directive that says what a handle of tags stands for. -/
  | handle (name : String) (start : Octets)
  | documentStart
  | documentEnd
  | blockSequenceStart
  | blockMappingStart
  | blockEnd
  | flowSequenceStart
  | flowSequenceEnd
  | flowMappingStart
  | flowMappingEnd
  | blockEntry
  | flowEntry
  | key
  | value
  | alias (name : String)
  | anchor (name : String)
  | tag (handle : String) (suffix : Octets)
  | scalar (style : ScalarStyle) (text : String)
  deriving DecidableEq, Repr

def TokenKind.isDirective : TokenKind → Bool
  | .version .. => true
  | .handle .. => true
  | _ => false

structure Token where
  kind : TokenKind
  start : Position
  /-- Right behind the token. -/
  stop : Position
  deriving DecidableEq, Repr

end SchemaLint.Yaml
