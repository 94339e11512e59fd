import SchemaLint.Sdl.Token

/-!
# From characters to tokens

`scan` looks at the text behind a first character and says how many more
characters belong to the lexeme and what it is. `lexemes` cuts the whole text so;
a lexeme that is at fault is set aside with its offset and the rest of the text
is read on. `tokens` then hangs ignored lexemes on the token that follows them
and closes with the end of the text.
-/

namespace SchemaLint.Sdl

open Text

inductive LexemeKind
  | token (kind : TokenKind)
  | trivia (kind : TriviaKind)
  | fault (fault : LexicalFault)
  deriving DecidableEq, Repr

/-- What stands behind a first character: the number of further characters that
belong to it, and what they are together. -/
structure Scan where
  more : Nat
  kind : LexemeKind
  deriving DecidableEq, Repr

namespace Scan

def token (more : Nat) (kind : TokenKind) : Scan := ⟨more, .token kind⟩

def fault (more : Nat) (fault : LexicalFault) : Scan := ⟨more, .fault fault⟩

end Scan

def scanSpread : List Char → Scan
  | '.' :: '.' :: _ => .token 2 .spread
  | _ :: _ => .fault 1 .unterminatedSpread
  | [] => .fault 0 .unterminatedSpread

/-- Digits of an exponent, of which at least one has been read. -/
def scanExponentDigits (more : Nat) : List Char → Scan
  | [] => .token more .float
  | c :: cs =>
      if isDigit c then scanExponentDigits (more + 1) cs
      else if c == '.' || isNameStart c then .fault (more + 1) (.floatSuffix c)
      else .token more .float

def scanExponentSigned (more : Nat) : List Char → Scan
  | [] => .fault more .endInFloat
  | c :: cs =>
      if isDigit c then scanExponentDigits (more + 1) cs
      else .fault (more + 1) (.noExponentDigit c)

/-- Behind the `e` of a float. -/
def scanExponent (more : Nat) : List Char → Scan
  | [] => .fault more .endInFloat
  | c :: cs =>
      if isDigit c then scanExponentDigits (more + 1) cs
      else if c == '+' || c == '-' then scanExponentSigned (more + 1) cs
      else .fault (more + 1) (.noExponent c)

/-- Digits of a fraction, of which at least one has been read. -/
def scanFraction (more : Nat) : List Char → Scan
  | [] => .token more .float
  | c :: cs =>
      if isDigit c then scanFraction (more + 1) cs
      else if c == 'e' || c == 'E' then scanExponent (more + 1) cs
      else if c == '.' || isNameStart c then .fault (more + 1) (.floatSuffix c)
      else .token more .float

/-- Behind the decimal point. -/
def scanPoint (more : Nat) : List Char → Scan
  | [] => .fault more .endInFloat
  | c :: cs =>
      if isDigit c then scanFraction (more + 1) cs
      else .fault (more + 1) (.noFraction c)

/-- Digits of an integer that does not start with a zero. -/
def scanInteger (more : Nat) : List Char → Scan
  | [] => .token more .int
  | c :: cs =>
      if isDigit c then scanInteger (more + 1) cs
      else if c == '.' then scanPoint (more + 1) cs
      else if c == 'e' || c == 'E' then scanExponent (more + 1) cs
      else if isNameStart c then .fault (more + 1) (.integerSuffix c)
      else .token more .int

/-- Behind a leading zero, after which no digit may follow. -/
def scanZero (more : Nat) : List Char → Scan
  | [] => .token more .int
  | c :: cs =>
      if isDigit c then .fault (more + 1) .leadingZero
      else if c == '.' then scanPoint (more + 1) cs
      else if c == 'e' || c == 'E' then scanExponent (more + 1) cs
      else if isNameStart c then .fault (more + 1) (.integerSuffix c)
      else .token more .int

def scanMinus : List Char → Scan
  | [] => .fault 0 (.strayCharacter '-')
  | c :: cs =>
      if c == '0' then scanZero 1 cs
      else if isDigit c then scanInteger 1 cs
      else .fault 1 (.strayAfterMinus c)

/-- Behind the three quotes of a block string: up to the next three quotes that
no backslash escapes. -/
def scanBlockString (more : Nat) : List Char → Scan
  | '"' :: '"' :: '"' :: _ => .token (more + 3) .string
  | '\\' :: '"' :: '"' :: '"' :: cs => scanBlockString (more + 4) cs
  | '\\' :: '"' :: '"' :: cs => scanBlockString (more + 3) cs
  | '\\' :: '"' :: cs => scanBlockString (more + 2) cs
  | _ :: cs => scanBlockString (more + 1) cs
  | [] => .fault more .unterminatedString

def isLeadSurrogate (n : Nat) : Bool := 0xD800 ≤ n && n ≤ 0xDBFF

def isTrailSurrogate (n : Nat) : Bool := 0xDC00 ≤ n && n ≤ 0xDFFF

def isScalarValue (n : Nat) : Bool := n < 0xD800 || (0xDFFF < n && n < 0x110000)

/-- Where the reading of a string stands. -/
inductive StringMode
  /-- Between characters. -/
  | body
  /-- Behind a backslash. -/
  | escape
  /-- Behind `\u`. -/
  | unicode
  /-- In four hexadecimal digits: how many are owed, their value so far, and
  whether a lead surrogate came right before. -/
  | fixed (owed : Nat) (value : Nat) (paired : Bool)
  /-- In digits between braces: whether there is one yet, and their value so far. -/
  | braced (digits : Bool) (value : Nat)
  /-- Behind a lead surrogate, which wants a trail. -/
  | afterLead
  /-- Behind a lead surrogate and a backslash. -/
  | afterLeadEscape
  deriving DecidableEq, Repr

def isSimpleEscape (c : Char) : Bool :=
  c == '"' || c == '\\' || c == '/' || c == 'b' || c == 'f' || c == 'n' || c == 'r' || c == 't'

/-- A character between escapes, the closing quote apart. -/
def stepBody (noted : Option LexicalFault) (c : Char) : StringMode × Option LexicalFault :=
  if c == '\\' then (.escape, noted)
  else if c == '\n' || c == '\r' then (.body, some .lineBreakInString)
  else (.body, noted)

def stepEscape (noted : Option LexicalFault) (c : Char) : StringMode × Option LexicalFault :=
  if isSimpleEscape c then (.body, noted)
  else if c == 'u' then (.unicode, noted)
  else (.body, some .unknownEscape)

/-- The fourth digit of a fixed escape decides what its value may be. -/
def closeFixed (noted : Option LexicalFault) (value : Nat) (paired : Bool) :
    StringMode × Option LexicalFault :=
  if paired then
    if isTrailSurrogate value then (.body, noted) else (.body, some .unpairedSurrogate)
  else if isLeadSurrogate value then (.afterLead, noted)
  else if isTrailSurrogate value then (.body, some .unpairedSurrogate)
  else (.body, noted)

def stepFixed (noted : Option LexicalFault) (owed value : Nat) (paired : Bool) (c : Char) :
    StringMode × Option LexicalFault :=
  match hexDigit? c with
  | none => (.body, some .invalidUnicodeEscape)
  | some d =>
      if owed ≤ 1 then closeFixed noted (value * 16 + d) paired
      else (.fixed (owed - 1) (value * 16 + d) paired, noted)

def stepBraced (noted : Option LexicalFault) (digits : Bool) (value : Nat) (c : Char) :
    StringMode × Option LexicalFault :=
  if c == '\x7d' then
    if digits && isScalarValue value then (.body, noted) else (.body, some .notAScalarValue)
  else
    match hexDigit? c with
    | none => (.body, some .invalidUnicodeEscape)
    | some d => (.braced true (value * 16 + d), noted)

/-- One character of a string other than its closing quote. The last fault noted
in a string is the one that counts, and the character that leaves a lead surrogate
alone is read over as part of that fault. -/
def stepString (mode : StringMode) (noted : Option LexicalFault) (c : Char) :
    StringMode × Option LexicalFault :=
  match mode with
  | .body => stepBody noted c
  | .escape => stepEscape noted c
  | .unicode => if c == '\x7b' then (.braced false 0, noted) else stepFixed noted 4 0 false c
  | .fixed owed value paired => stepFixed noted owed value paired c
  | .braced digits value => stepBraced noted digits value c
  | .afterLead =>
      if c == '\\' then (.afterLeadEscape, noted) else (.body, some .unpairedSurrogate)
  | .afterLeadEscape =>
      if c == 'u' then (.fixed 4 0 true, noted) else (.body, some .unpairedSurrogate)

/-- What a closing quote leaves of the notes on a string, or nothing when the
quote is escaped and closes nothing. -/
def closeString? (mode : StringMode) (noted : Option LexicalFault) :
    Option (Option LexicalFault) :=
  match mode with
  | .body => some noted
  | .escape => none
  | .unicode => some (some .incompleteUnicodeEscape)
  | .fixed _ _ _ => some (some .incompleteUnicodeEscape)
  | .braced _ _ => some (some .incompleteUnicodeEscape)
  | .afterLead => some (some .unpairedSurrogate)
  | .afterLeadEscape => none

/-- Up to the closing quote of a string. -/
def scanString (mode : StringMode) (noted : Option LexicalFault) (more : Nat) :
    List Char → Scan
  | [] => .fault more .unterminatedString
  | c :: cs =>
      if c == '"' then
        match closeString? mode noted with
        | some none => .token (more + 1) .string
        | some (some f) => .fault (more + 1) f
        | none =>
            let (mode, noted) := stepString mode noted c
            scanString mode noted (more + 1) cs
      else
        let (mode, noted) := stepString mode noted c
        scanString mode noted (more + 1) cs

/-- Behind an opening quote. The first character of a string may be a line
break. -/
def scanQuote : List Char → Scan
  | [] => .fault 0 .endAfterQuote
  | '"' :: '"' :: cs => scanBlockString 2 cs
  | '"' :: _ => .token 1 .string
  | '\\' :: cs => scanString .escape none 1 cs
  | _ :: cs => scanString .body none 1 cs

def isCommentEnd (c : Char) : Bool := c == '\n' || c == '\r'

/-- The lexeme that starts with `c` and goes on in `cs`. -/
def scan (c : Char) (cs : List Char) : Scan :=
  match punctuator? c with
  | some kind => .token 0 kind
  | none =>
      if isNameStart c then .token (cs.takeWhile isNameContinue).length .name
      else if isSpace c then ⟨(cs.takeWhile isSpace).length, .trivia .space⟩
      else if c == ',' then ⟨0, .trivia .comma⟩
      else if c == '#' then ⟨(cs.takeWhile (!isCommentEnd ·)).length, .trivia .comment⟩
      else if c == '"' then scanQuote cs
      else if c == '.' then scanSpread cs
      else if c == '-' then scanMinus cs
      else if c == '0' then scanZero 0 cs
      else if isDigit c then scanInteger 0 cs
      else .fault 0 (.strayCharacter c)

structure Lexeme where
  kind : LexemeKind
  text : String
  offset : Nat
  deriving DecidableEq, Repr

/-- The lexemes of a text that starts at `offset`, of which `skip` characters
belong to a lexeme begun before. -/
def lexemesFrom : (skip offset : Nat) → List Char → List Lexeme
  | _, _, [] => []
  | skip + 1, offset, c :: cs => lexemesFrom skip (offset + c.utf8Size) cs
  | 0, offset, c :: cs =>
      let s := scan c cs
      ⟨s.kind, String.ofList (c :: cs.take s.more), offset⟩ ::
        lexemesFrom s.more (offset + c.utf8Size) cs

def lexemes (text : String) : List Lexeme := lexemesFrom 0 0 text.toList

/-- A lexical fault and the offset at which its lexeme began. -/
structure LocatedFault where
  fault : Fault
  offset : Nat
  deriving DecidableEq, Repr

def lexicalFaults (ls : List Lexeme) : List LocatedFault :=
  ls.filterMap fun l =>
    match l.kind with
    | .fault f => some ⟨.lexical f, l.offset⟩
    | _ => none

/-- Tokens of a list of lexemes, the first of which follows `trivia`. The text
ends at `ending`. -/
def gather (ending : Nat) (trivia : List Trivia) : List Lexeme → List Token
  | [] => [⟨.endOfText, "", ending, trivia⟩]
  | l :: ls =>
      match l.kind with
      | .token kind => ⟨kind, l.text, l.offset, trivia⟩ :: gather ending [] ls
      | .trivia kind => gather ending (trivia ++ [⟨kind, l.text, l.offset⟩]) ls
      | .fault _ => gather ending trivia ls

def tokens (text : String) : List Token := gather text.utf8ByteSize [] (lexemes text)

end SchemaLint.Sdl
