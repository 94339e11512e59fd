import SchemaLint.Yaml.Layout
import SchemaLint.Yaml.Node

/-!
# From tokens to a tree

One document is read, and nothing may follow it. A missing value is an empty plain
scalar. An anchor gets the number of names that are known before it, so a name that
is used again may share its number with the next new one. An alias takes the number
that its name has by then.
-/

namespace SchemaLint.Yaml

structure Anchor where
  number : Nat
  /-- The node, once it is read to its end. -/
  node : Option Node

structure Reader where
  ahead : List Token
  handles : Handles
  /-- Names of anchors with their numbers. -/
  names : List (String × Nat)
  /-- Anchors by their order in the text, the last first. -/
  anchors : List Anchor

abbrev Read := StateT Reader Option

namespace Read

def refuse {α : Type} : Read α := fun _ => none

def peek? : Read (Option Token) := return (← get).ahead.head?

def kind? : Read (Option TokenKind) := return (← peek?).map (·.kind)

def skip : Read Unit := modify fun r => { r with ahead := r.ahead.tail }

/-- The next token, which must be there. -/
def peek : Read Token := do
  let some token ← peek? | refuse
  return token

/-- Consumes a token of a kind if it comes next. -/
def accept (kind : TokenKind) : Read Bool := do
  if (← kind?) == some kind then
    skip
    return true
  else return false

def expect (kind : TokenKind) : Read Unit := do
  if !(← accept kind) then refuse

/-- What stands before the content of a node. -/
structure Properties where
  anchor : Option String
  tag : Option Tag

def Properties.isEmpty (p : Properties) : Bool := p.anchor.isNone && p.tag.isNone

def anchorName? : Read (Option String) := do
  match ← kind? with
  | some (.anchor name) =>
      skip
      return some name
  | _ => return none

def tag? : Read (Option Tag) := do
  match ← kind? with
  | some (.tag handle suffix) =>
      skip
      let some tag := Tag.resolve? (← get).handles handle suffix | refuse
      return some tag
  | _ => return none

/-- An anchor and a tag, in any order. -/
def properties : Read Properties := do
  match ← anchorName? with
  | some name => return ⟨some name, ← tag?⟩
  | none =>
      let tag ← tag?
      return ⟨← if tag.isSome then anchorName? else pure none, tag⟩

/-- Gives a number to a name. -/
def number (name : String) : Read Nat := do
  let names := (← get).names
  let others := names.filter (·.1 != name)
  modify fun r => { r with names := (name, names.length) :: others }
  return names.length

/-- Reads a node that has an anchor. -/
def anchored (name : String) (read : Read Node) : Read Node := do
  let number ← number name
  modify fun r => { r with anchors := ⟨number, none⟩ :: r.anchors }
  let index := (← get).anchors.length
  let node ← read
  modify fun r =>
    { r with anchors := r.anchors.modify (r.anchors.length - index) ({ · with node := some node }) }
  return node

/-- An alias of a name that is known. -/
def aliasOf (name : String) : Read Node := do
  let some number := (← get).names.lookup name | refuse
  return .alias number

/-- A node, or an absent value if a token of one of the kinds comes next. -/
def unlessAt (kinds : List TokenKind) (start : Position) (read : Read Node) : Read Node := do
  match ← kind? with
  | some kind => if kinds.contains kind then return .absent start else read
  | none => refuse

mutual

/-- A node. Block collections may start in the block context only, and a sequence
on the column of its parent only as the value of a key. -/
def node (fuel : Nat) (inBlock isValue : Bool) : Read Node :=
  match fuel with
  | 0 => refuse
  | fuel + 1 => do
      let first ← peek
      match first.kind with
      | .alias name =>
          skip
          aliasOf name
      | _ =>
          let properties ← properties
          let read := content fuel inBlock isValue properties first.start
          match properties.anchor with
          | some name => anchored name read
          | none => read

/-- The content of a node that has properties and starts at a place. The mark of
local tags alone says nothing of a scalar. -/
def content (fuel : Nat) (inBlock isValue : Bool) (properties : Properties) (start : Position) :
    Read Node :=
  match fuel with
  | 0 => refuse
  | fuel + 1 => do
      let tag := properties.tag
      let absent : Read Node :=
        if properties.isEmpty then refuse else pure (.scalar start .plain tag "")
      match ← kind?, inBlock with
      | some (.scalar style text), _ =>
          skip
          return .scalar start style (tag.filter (· != .bare)) text
      | some .flowSequenceStart, _ =>
          skip
          return .sequence start tag (← flowItems fuel true)
      | some .flowMappingStart, _ =>
          skip
          return .mapping start tag (← flowEntries fuel true)
      | some .blockSequenceStart, true =>
          skip
          return .sequence start tag (← blockItems fuel)
      | some .blockMappingStart, true =>
          skip
          return .mapping start tag (← blockEntries fuel)
      | some .blockEntry, _ => if isValue then return .sequence start tag (← flatItems fuel) else absent
      | _, _ => absent

/-- Items of an indented sequence up to its end. -/
def blockItems (fuel : Nat) : Read (List Node) :=
  match fuel with
  | 0 => refuse
  | fuel + 1 => do
      let token ← peek
      skip
      match token.kind with
      | .blockEnd => return []
      | .blockEntry =>
          let item ← unlessAt [.blockEntry, .blockEnd] token.stop (node fuel true false)
          return item :: (← blockItems fuel)
      | _ => refuse

/-- Items of a sequence on the column of its parent, as long as there are some. -/
def flatItems (fuel : Nat) : Read (List Node) :=
  match fuel with
  | 0 => refuse
  | fuel + 1 => do
      let token ← peek
      match token.kind with
      | .blockEntry =>
          skip
          let item ← unlessAt [.blockEntry, .key, .value, .blockEnd] token.stop
            (node fuel true false)
          return item :: (← flatItems fuel)
      | _ => return []

/-- Entries of a block mapping up to its end. -/
def blockEntries (fuel : Nat) : Read (List (Node × Node)) :=
  match fuel with
  | 0 => refuse
  | fuel + 1 => do
      let token ← peek
      skip
      match token.kind with
      | .blockEnd => return []
      | .key =>
          let key ← unlessAt [.key, .value, .blockEnd] token.stop (node fuel true true)
          let next ← peek
          let value ←
            if next.kind == .value then do
              skip
              unlessAt [.key, .value, .blockEnd] next.stop (node fuel true true)
            else pure (.absent next.start)
          return (key, value) :: (← blockEntries fuel)
      | _ => refuse

/-- The value of an entry between brackets, absent at a token of one of the kinds. -/
def flowValue (fuel : Nat) (ends : List TokenKind) : Read Node :=
  match fuel with
  | 0 => refuse
  | fuel + 1 => do
      if ← accept .value then
        unlessAt ends (← peek).start (node fuel false false)
      else return .absent (← peek).start

/-- Items between square brackets. One with a colon is a mapping of one entry. -/
def flowItems (fuel : Nat) (isFirst : Bool) : Read (List Node) :=
  match fuel with
  | 0 => refuse
  | fuel + 1 => do
      if ← accept .flowSequenceEnd then return []
      if !isFirst then expect .flowEntry
      if ← accept .flowSequenceEnd then return []
      let token ← peek
      let item ←
        if token.kind == .key then do
          skip
          let ends := [TokenKind.flowEntry, .flowSequenceEnd]
          let first ← peek
          let key ←
            if first.kind == .value || ends.contains first.kind then do
              skip
              pure (.absent first.stop)
            else node fuel false false
          let value ← flowValue fuel ends
          pure (.mapping token.start none [(key, value)])
        else node fuel false false
      return item :: (← flowItems fuel false)

/-- Entries between braces. A key without a colon has no value. -/
def flowEntries (fuel : Nat) (isFirst : Bool) : Read (List (Node × Node)) :=
  match fuel with
  | 0 => refuse
  | fuel + 1 => do
      if ← accept .flowMappingEnd then return []
      if !isFirst then expect .flowEntry
      if ← accept .flowMappingEnd then return []
      let ends := [TokenKind.flowEntry, .flowMappingEnd]
      let entry ←
        if ← accept .key then do
          let key ← unlessAt (.value :: ends) (← peek).start (node fuel false false)
          pure (key, ← flowValue fuel ends)
        else do
          let key ← node fuel false false
          pure (key, .absent (← peek).start)
      return entry :: (← flowEntries fuel false)

end

def isDocumentMark (kind : TokenKind) : Bool :=
  kind.isDirective || kind == .documentStart || kind == .documentEnd

/-- Versions of the format that are understood. -/
def knownVersions : List (Nat × Nat) := [(1, 1), (1, 2)]

/-- The directives before a document. There is one on the version at most, and one on
each handle. -/
def directives : Read Unit := do
  let kinds := ((← get).ahead.map (·.kind)).takeWhile (·.isDirective)
  let versions := kinds.filterMap fun
    | .version major minor => some (major, minor)
    | _ => none
  let handles := kinds.filterMap fun
    | .handle name start => some (name, start)
    | _ => none
  if 1 < versions.length || !versions.all knownVersions.contains then refuse
  if !(handles.map (·.1)).Nodup then refuse
  modify fun r =>
    { r with ahead := r.ahead.drop kinds.length, handles := handles ++ defaultHandles }

/-- The one document of a text. -/
def document (fuel : Nat) : Read Node := do
  let isMarked := (← kind?).any fun kind => kind.isDirective || kind == .documentStart
  directives
  if isMarked then expect .documentStart
  let root ←
    match ← peek? with
    | none => pure (.absent .origin)
    | some token =>
        if isMarked && isDocumentMark token.kind then pure (.absent token.start)
        else node fuel true false
  modify fun r => { r with ahead := r.ahead.dropWhile (·.kind == .documentEnd) }
  if (← peek?).isSome then refuse
  return root

end Read

/-- The anchors of a document that is read to its end. -/
def Reader.table (r : Reader) : Anchors :=
  r.anchors.filterMap fun anchor => anchor.node.map (anchor.number, ·)

/-- The document that a text is, if it is one. -/
def Document.parse? (text : String) : Option Document := do
  let tokens ← tokens? text.toList
  let (root, reader) ← (Read.document (4 * tokens.length + 4)).run ⟨tokens, [], [], []⟩
  return ⟨root, reader.table⟩

end SchemaLint.Yaml
