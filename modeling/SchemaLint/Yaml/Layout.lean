import SchemaLint.Yaml.BlockScalar
import SchemaLint.Yaml.Directive
import SchemaLint.Yaml.PlainScalar
import SchemaLint.Yaml.QuotedScalar

/-!
# From text to tokens

Whether a scalar is the key of a mapping shows only at the colon behind it. So each
token gets a slot, and when the colon comes the tokens that open the key, and
perhaps a mapping, are put in front of the slot of the key. A key with its colon
fits on one line and in 1024 bytes.
-/

namespace SchemaLint.Yaml

/-- A token with those that a later colon puts in front of it. -/
structure Slot where
  token : Token
  opening : List Token

/-- A token that turns into a key if a colon follows. -/
structure PossibleKey where
  slot : Nat
  start : Position
  /-- Bytes before it. -/
  offset : Nat
  /-- Nothing but a key can stand at its place. -/
  isRequired : Bool

structure Layout where
  cursor : Cursor
  slots : Array Slot
  /-- Column of the innermost block collection, -1 outside of all. -/
  indent : Int
  /-- Columns of the block collections around it, the innermost first. -/
  outerIndents : List Int
  /-- The possible key of each open bracket, the innermost first, and of the text
  outside all brackets. -/
  keys : List (Option PossibleKey)
  /-- A key may start here. -/
  keyAllowed : Bool

namespace Layout

def ofText (cs : List Char) : Layout := ⟨.ofText cs, .empty, -1, [], [none], true⟩

def inFlow (l : Layout) : Bool := 1 < l.keys.length

def longestKey : Nat := 1024

end Layout

/-- A step that changes the layout, or finds that the text is no document. -/
abbrev Scan := StateT Layout Option

namespace Scan

def refuse {α : Type} : Scan α := fun _ => none

def require (condition : Bool) : Scan Unit := if condition then pure () else refuse

def setCursor (cursor : Cursor) : Scan Unit := modify ({ · with cursor })

def allowKey (allowed : Bool) : Scan Unit := modify ({ · with keyAllowed := allowed })

def append (token : Token) : Scan Unit :=
  modify fun l => { l with slots := l.slots.push ⟨token, []⟩ }

/-- A token of no width. -/
def appendMark (kind : TokenKind) : Scan Unit := do
  let start := (← get).cursor.position
  append ⟨kind, start, start⟩

/-- A token that takes so many characters. -/
def appendShort (kind : TokenKind) (length : Nat) : Scan Unit := do
  let cursor := (← get).cursor
  let behind := cursor.skip length
  setCursor behind
  append ⟨kind, cursor.position, behind.position⟩

def isStale (cursor : Cursor) (key : PossibleKey) : Bool :=
  key.start.line < cursor.position.line || key.offset + Layout.longestKey < cursor.offset

/-- Gives up possible keys that a colon can no longer follow. -/
def dropStaleKeys : Scan Unit := do
  let l ← get
  require (!l.keys.any fun key => key.any fun k => isStale l.cursor k && k.isRequired)
  set { l with keys := l.keys.map (Option.filter (!isStale l.cursor ·)) }

def setKey (key : Option PossibleKey) : Scan Unit :=
  modify fun l => { l with keys := key :: l.keys.tail }

def innermostKey? : Scan (Option PossibleKey) := return (← get).keys.head?.join

/-- What was read so far is no key. -/
def dropKey : Scan Unit := do
  require (!(← innermostKey?).any (·.isRequired))
  setKey none

/-- The next token may be a key. -/
def saveKey : Scan Unit := do
  let l ← get
  if l.keyAllowed then
    dropKey
    setKey (some ⟨l.slots.size, l.cursor.position, l.cursor.offset,
      !l.inFlow && l.indent == (l.cursor.column : Int)⟩)

/-- Opens a block collection if the column is further right than the open ones.
Says whether it did. -/
def deepen (column : Nat) : Scan Bool := do
  let l ← get
  if !l.inFlow && l.indent < (column : Int) then
    set { l with indent := column, outerIndents := l.indent :: l.outerIndents }
    return true
  else return false

/-- Opens a block collection of a kind here, if needed. -/
def openBlock (kind : TokenKind) : Scan Unit := do
  if ← deepen (← get).cursor.column then appendMark kind

/-- Closes the block collections that stand further right than a column. -/
def closeBlocks (column : Int) : Scan Unit := do
  let l ← get
  if !l.inFlow then
    let stack := l.indent :: l.outerIndents
    let closed := stack.takeWhile (column < ·)
    let kept := stack.drop closed.length
    set { l with indent := kept.head?.getD (-1), outerIndents := kept.tail }
    closed.forM fun _ => appendMark .blockEnd

def scanDocumentMark (kind : TokenKind) : Scan Unit := do
  closeBlocks (-1)
  dropKey
  allowKey false
  appendShort kind 3

def scanDirective : Scan Unit := do
  closeBlocks (-1)
  dropKey
  allowKey false
  let start := (← get).cursor
  let name := (start.rest.drop 1).takeWhile isNameChar
  let behind := start.skip (1 + name.length)
  require (behind.gapAt 0)
  let value := behind.skipWhile isSpaceOrTab
  let some (kind, length) := directiveValue? (String.ofList name) value.rest | refuse
  let some next := skipToLineEnd? (value.skip length) | refuse
  setCursor next
  append ⟨kind, start.position, next.position⟩

def scanFlowStart (kind : TokenKind) : Scan Unit := do
  saveKey
  modify fun l => { l with keys := none :: l.keys }
  allowKey true
  appendShort kind 1

def scanFlowEnd (kind : TokenKind) : Scan Unit := do
  dropKey
  modify fun l => if l.inFlow then { l with keys := l.keys.tail } else l
  allowKey false
  appendShort kind 1

def scanFlowEntry : Scan Unit := do
  dropKey
  allowKey true
  appendShort .flowEntry 1

/-- In the block context a collection may start only where a key may. -/
def startEntry (kind : TokenKind) : Scan Unit := do
  let l ← get
  if !l.inFlow then
    require l.keyAllowed
    openBlock kind

def scanBlockEntry : Scan Unit := do
  startEntry .blockSequenceStart
  dropKey
  allowKey true
  appendShort .blockEntry 1

def scanKey : Scan Unit := do
  startEntry .blockMappingStart
  dropKey
  allowKey (!(← get).inFlow)
  appendShort .key 1

/-- Turns a token that was read into a key. -/
def resolveKey (key : PossibleKey) : Scan Unit := do
  let mark (kind : TokenKind) : Token := ⟨kind, key.start, key.start⟩
  let opening := if ← deepen key.start.column then [mark .blockMappingStart, mark .key]
    else [mark .key]
  modify fun l => { l with slots := l.slots.modify key.slot ({ · with opening }) }
  setKey none

def scanValue : Scan Unit := do
  match ← innermostKey? with
  | some key =>
      resolveKey key
      allowKey false
  | none =>
      startEntry .blockMappingStart
      allowKey (!(← get).inFlow)
  appendShort .value 1

def isBehindName (c : Char) : Bool :=
  isGap c || ['?', ':', ',', ']', '\x7d', '%', '@', '\x60'].contains c

/-- An anchor or an alias. -/
def scanName (kind : String → TokenKind) : Scan Unit := do
  saveKey
  allowKey false
  let name := ((← get).cursor.rest.drop 1).takeWhile isNameChar
  let behind := (← get).cursor.rest.drop (1 + name.length)
  require (!name.isEmpty && behind.head?.all isBehindName)
  appendShort (kind (String.ofList name)) (1 + name.length)

/-- A tag ends with a blank or, inside brackets, with a comma. -/
def scanTag : Scan Unit := do
  saveKey
  allowKey false
  let l ← get
  let some tag := tagText? l.cursor.rest | refuse
  require (l.cursor.gapAt tag.length ||
    (l.inFlow && (l.cursor.rest.drop tag.length).head? == some ','))
  appendShort (.tag tag.handle tag.suffix) tag.length

def scanBlockScalar (isLiteral : Bool) : Scan Unit := do
  dropKey
  allowKey true
  let l ← get
  let some (text, next) := blockScalar? isLiteral l.indent l.cursor | refuse
  setCursor next
  let style := if isLiteral then ScalarStyle.literal else .folded
  append ⟨.scalar style (String.ofList text), l.cursor.position, next.position⟩

def scanQuotedScalar (style : QuoteStyle) : Scan Unit := do
  saveKey
  allowKey false
  let l ← get
  let some (text, next) := quotedScalar? style l.cursor | refuse
  setCursor next
  append ⟨.scalar .quoted (String.ofList text), l.cursor.position, next.position⟩

def scanPlainScalar : Scan Unit := do
  saveKey
  allowKey false
  let l ← get
  let some read := plainScalar? l.inFlow (l.indent + 1).toNat l.cursor | refuse
  setCursor read.next
  append ⟨.scalar .plain (String.ofList read.text), l.cursor.position, read.stop⟩
  if read.brokenOff then allowKey true

/-- Characters that have a meaning of their own at the start of a token. -/
def indicators : List Char :=
  ['-', '?', ':', ',', '[', ']', '\x7b', '\x7d', '#', '&', '*', '!', '|', '>', '\'', '"', '%',
    '@', '\x60']

/-- A plain scalar may start here. -/
def startsPlain (l : Layout) (c : Char) : Bool :=
  !(isGap c || indicators.contains c) ||
    (c == '-' && !(l.cursor.rest.drop 1).head?.any isSpaceOrTab) ||
    (!l.inFlow && (c == '?' || c == ':') && !l.cursor.gapAt 1)

/-- Reads the token that starts with `c`. -/
def scanToken (c : Char) : Scan Unit := do
  let l ← get
  let cursor := l.cursor
  if cursor.column == 0 && c == '%' then scanDirective
  else if cursor.atDocumentMark "---" then scanDocumentMark .documentStart
  else if cursor.atDocumentMark "..." then scanDocumentMark .documentEnd
  else if c == '[' then scanFlowStart .flowSequenceStart
  else if c == '\x7b' then scanFlowStart .flowMappingStart
  else if c == ']' then scanFlowEnd .flowSequenceEnd
  else if c == '\x7d' then scanFlowEnd .flowMappingEnd
  else if c == ',' then scanFlowEntry
  else if c == '-' && cursor.gapAt 1 then scanBlockEntry
  else if c == '?' && (l.inFlow || cursor.gapAt 1) then scanKey
  else if c == ':' && (l.inFlow || cursor.gapAt 1) then scanValue
  else if c == '*' then scanName .alias
  else if c == '&' then scanName .anchor
  else if c == '!' then scanTag
  else if c == '|' && !l.inFlow then scanBlockScalar true
  else if c == '>' && !l.inFlow then scanBlockScalar false
  else if c == '\'' then scanQuotedScalar .single
  else if c == '"' then scanQuotedScalar .double
  else if startsPlain l c then scanPlainScalar
  else refuse

/-- Past blanks, comments and line ends. In the block context a new line may start
a key, and tabs are no indentation. -/
def skipToToken : Nat → Scan Unit
  | 0 => refuse
  | fuel + 1 => do
      let l ← get
      let cursor := if l.cursor.column == 0 && l.cursor.startsWith '\uFEFF' then l.cursor.skip 1
        else l.cursor
      let cursor := cursor.skipWhile fun c =>
        c == ' ' || (c == '\t' && (l.inFlow || !l.keyAllowed))
      let cursor := if cursor.startsWith '#' then cursor.skipWhile (!isBreak ·) else cursor
      if cursor.headIs isBreak then
        setCursor (cursor.skip 1)
        if !l.inFlow then allowKey true
        skipToToken fuel
      else setCursor cursor

/-- Everything is closed at the end, which is at the start of a line. -/
def scanEnd : Scan Unit := do
  let cursor := (← get).cursor
  if cursor.column != 0 then
    setCursor { cursor with position := ⟨cursor.position.line + 1, 0⟩ }
  closeBlocks (-1)
  dropKey

def scanAll : Nat → Scan Unit
  | 0 => refuse
  | fuel + 1 => do
      skipToToken ((← get).cursor.rest.length + 1)
      dropStaleKeys
      closeBlocks (← get).cursor.column
      match (← get).cursor.head? with
      | none => scanEnd
      | some c =>
          scanToken c
          scanAll fuel

end Scan

/-- The tokens of a text, if it is made of tokens. -/
def tokens? (cs : List Char) : Option (List Token) := do
  if !cs.all isAllowed then none
  let (_, layout) ← (Scan.scanAll (cs.length + 1)).run (.ofText cs)
  return layout.slots.toList.flatMap fun slot => slot.opening ++ [slot.token]

end SchemaLint.Yaml
