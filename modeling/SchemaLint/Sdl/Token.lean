import SchemaLint.Sdl.Fault
import SchemaLint.Text.Digit

/-!
# Tokens

A token of the schema language, with what stands ignored in front of it. White
space, comments and commas carry no meaning, but a comma still hides the token
behind it from a look two tokens ahead, and each of them can be what an error
message quotes.
-/

namespace SchemaLint.Sdl

open Text

inductive TokenKind
  | bang
  | dollar
  | amp
  | parenL
  | parenR
  | spread
  | colon
  | equals
  | atSign
  | bracketL
  | bracketR
  | braceL
  | pipe
  | braceR
  | name
  | int
  | float
  | string
  | endOfText
  deriving DecidableEq, Repr

inductive TriviaKind
  | space
  | comment
  | comma
  deriving DecidableEq, Repr

structure Trivia where
  kind : TriviaKind
  text : String
  offset : Nat
  deriving DecidableEq, Repr

structure Token where
  kind : TokenKind
  text : String
  offset : Nat
  /-- What is ignored between the token before and this one, in order. -/
  trivia : List Trivia
  deriving DecidableEq, Repr

/-- How an error message quotes a token. -/
def Token.shown (t : Token) : String :=
  if t.kind = .endOfText then "EOF" else t.text

/-- A token that stands alone in one character. -/
def punctuator? : Char → Option TokenKind
  | '!' => some .bang
  | '$' => some .dollar
  | '&' => some .amp
  | '(' => some .parenL
  | ')' => some .parenR
  | ':' => some .colon
  | '=' => some .equals
  | '@' => some .atSign
  | '[' => some .bracketL
  | ']' => some .bracketR
  | '\x7b' => some .braceL
  | '|' => some .pipe
  | '\x7d' => some .braceR
  | _ => none

def isNameStart (c : Char) : Bool :=
  ('a' ≤ c && c ≤ 'z') || ('A' ≤ c && c ≤ 'Z') || c == '_'

def isNameContinue (c : Char) : Bool := isNameStart c || isDigit c

def isSpace (c : Char) : Bool :=
  c == ' ' || c == '\t' || c == '\n' || c == '\r' || c == '\uFEFF'

/-- A name of the schema language. -/
def isName (s : String) : Bool :=
  match s.toList with
  | [] => false
  | c :: cs => isNameStart c && cs.all isNameContinue

end SchemaLint.Sdl
