import SchemaLint.Config
import SchemaLint.Config.Problem

/-!
# Configurations as document trees

Decoding looks at the keys it knows and passes over all others. An absent key has
its default, and an absent value is an empty mapping or sequence where one of these
is wanted. A known key that occurs twice, or has a value of the wrong kind, makes
the whole tree no configuration. Encoding leaves out what a suppression does not
say.
-/

namespace SchemaLint

open Yaml

namespace Yaml.Node

/-- The text of a scalar whose meaning counts: a plain one, or a literal one with the
tag of what is wanted. -/
def meaningfulText? (wanted : Tag) : Node → Option String
  | .scalar _ .plain _ text => some text
  | .scalar _ .literal (some tag) text => if tag = wanted then some text else none
  | _ => none

variable (anchors : Anchors) (node : Node)

def boolean? : Option Bool :=
  ((node.resolved anchors).meaningfulText? .boolean).bind booleanOf?

def lineNumber? : Option Nat :=
  ((node.resolved anchors).meaningfulText? .integer).bind unsigned?

/-- The text of a scalar, whatever it would mean. -/
def text? : Option String :=
  match node.resolved anchors with
  | .scalar _ _ _ text => some text
  | _ => none

def items? : Option (List Node) :=
  match node.resolved anchors with
  | .sequence _ _ items => some items
  | .scalar _ .plain _ "" => some []
  | _ => none

def entries? : Option (List (Node × Node)) :=
  match node.resolved anchors with
  | .mapping _ _ entries => some entries
  | .scalar _ .plain _ "" => some []
  | _ => none

/-- Aliases that are followed to get at a node itself. -/
def hops : Nat := if node.isAlias then 1 else 0

end Yaml.Node

/-- What is wanted of a value. -/
structure Expectation where
  /-- The first problem of a value at a path. -/
  problem? : List Step → Node → Option Problem
  /-- How many aliases are followed in reading the value. -/
  hops : Node → Nat

section Reading

variable (anchors : Anchors)

def wrongKind (path : List Step) (node : Node) (wanted : Wanted) : Problem :=
  let found := node.resolved anchors
  ⟨path, .wrongKind (.ofNode found) wanted, found.start⟩

/-- A value of a kind, which is one that a reader accepts. -/
def expectKind {α : Type} (wanted : Wanted) (read : Anchors → Node → Option α) : Expectation where
  problem? path node :=
    if (read anchors node).isSome then none else some (wrongKind anchors path node wanted)
  hops node := node.hops

/-- The step to the value of a key. -/
def stepTo (key : Node) : Step :=
  if key.isAlias then .unnamed else .key ((key.text? anchors).getD "")

/-- The first problem among entries of a mapping, in the order of the document. Known
keys that came before are `seen`. -/
def problemOfEntries? (known : List (String × Expectation)) (path : List Step)
    (start : Position) (seen : List String) : List (Node × Node) → Option Problem
  | [] => none
  | (key, value) :: entries =>
      match key.text? anchors with
      | none => some (wrongKind anchors path key .key)
      | some name =>
          match known.lookup name with
          | none => problemOfEntries? known path start seen entries
          | some expected =>
              if seen.contains name then some ⟨path, .repeatedKey name, start⟩
              else
                match expected.problem? (path ++ [stepTo anchors key]) value with
                | some problem => some problem
                | none => problemOfEntries? known path start (name :: seen) entries

/-- Aliases that are followed in reading a key, and its value if the key is known. -/
def hopsOfEntry (known : List (String × Expectation)) (key value : Node) : Nat :=
  match (key.text? anchors).bind fun name => known.lookup name with
  | some expected => key.hops + expected.hops value
  | none => key.hops

/-- A mapping in which only known keys matter. -/
def expectFields (wanted : Wanted) (known : List (String × Expectation)) : Expectation where
  problem? path node :=
    match node.entries? anchors with
    | none => some (wrongKind anchors path node wanted)
    | some entries => problemOfEntries? anchors known path (node.resolved anchors).start [] entries
  hops node :=
    ((node.entries? anchors).getD []).foldr (fun (key, value) n =>
      hopsOfEntry anchors known key value + n) node.hops

/-- A sequence with the same expectation of each item. -/
def expectItems (expected : Expectation) : Expectation where
  problem? path node :=
    match node.items? anchors with
    | none => some (wrongKind anchors path node .sequence)
    | some items => items.zipIdx.findSome? fun (item, n) => expected.problem? (path ++ [.index n]) item
  hops node :=
    ((node.items? anchors).getD []).foldr (fun item n => expected.hops item + n) node.hops

def expectSettings : Expectation :=
  expectFields anchors .settings
    (["strictMode", "validateFederation", "checkDescriptions"].map
      (·, expectKind anchors .boolean Node.boolean?))

def expectSuppression : Expectation :=
  expectFields anchors .suppression
    (("line", expectKind anchors .lineNumber Node.lineNumber?) ::
      ["file", "rule", "value", "reason"].map (·, expectKind anchors .text Node.text?))

def expectConfig : Expectation :=
  expectFields anchors .config
    [("settings", expectSettings anchors),
      ("suppressions", expectItems anchors (expectSuppression anchors))]

/-- The value that a mapping has for a key. -/
def valueOf? (name : String) (entries : List (Node × Node)) : Option Node :=
  (entries.find? fun entry => entry.1.text? anchors == some name).map (·.2)

/-- The entries of a node that is a mapping. -/
def entriesOf (node : Option Node) : List (Node × Node) :=
  (node.bind (·.entries? anchors)).getD []

def itemsOf (node : Option Node) : List Node := (node.bind (·.items? anchors)).getD []

def settingsOf (entries : List (Node × Node)) : Settings :=
  let flag (name : String) : Bool :=
    ((valueOf? anchors name entries).bind (·.boolean? anchors)).getD true
  ⟨flag "strictMode", flag "validateFederation", flag "checkDescriptions"⟩

def suppressionOf (entries : List (Node × Node)) : Suppression :=
  let text (name : String) : String :=
    ((valueOf? anchors name entries).bind (·.text? anchors)).getD ""
  let line := ((valueOf? anchors "line" entries).bind (·.lineNumber? anchors)).getD 0
  ⟨text "file", line, text "rule", text "value", text "reason"⟩

def configOf (entries : List (Node × Node)) : Config where
  settings := settingsOf anchors (entriesOf anchors (valueOf? anchors "settings" entries))
  suppressions := (itemsOf anchors (valueOf? anchors "suppressions" entries)).map fun item =>
    suppressionOf anchors (entriesOf anchors (some item))

end Reading

inductive DecodeError
  | problem (p : Problem)
  | tooManyAliases
  deriving DecidableEq, Repr

namespace Config

/-- The configuration that a document stands for. -/
def decode (document : Document) : Except DecodeError Config :=
  let expected := expectConfig document.anchors
  match expected.problem? [] document.root with
  | some p => .error (.problem p)
  | none =>
      if document.aliasLimit < expected.hops document.root then .error .tooManyAliases
      else .ok (configOf document.anchors (entriesOf document.anchors (some document.root)))

end Config

/-- A scalar in quotes. -/
def quotedNode (text : String) : Node := .scalar .origin .quoted none text

def plainNode (text : String) : Node := .scalar .origin .plain none text

end SchemaLint
