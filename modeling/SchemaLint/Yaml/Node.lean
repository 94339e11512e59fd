import SchemaLint.Yaml.Token

/-!
# Document trees

A document is a tree of scalars, sequences and mappings. Each node remembers where
it starts, and an alias which anchor it names. A scalar keeps its text: what it means
depends on what is wanted of it. Anchors have numbers, and a number that is given
twice belongs to the later node, also for aliases that stand before it.
-/

namespace SchemaLint.Yaml

inductive Node
  | scalar (start : Position) (style : ScalarStyle) (tag : Option Tag) (text : String)
  | sequence (start : Position) (tag : Option Tag) (items : List Node)
  /-- Keys with their values in the order of the document. -/
  | mapping (start : Position) (tag : Option Tag) (entries : List (Node × Node))
  | alias (anchor : Nat)

/-- The nodes that anchors stand on, none of which is an alias. A number counts where
it comes first. -/
abbrev Anchors := List (Nat × Node)

namespace Node

/-- An absent value. -/
def absent (start : Position) : Node := .scalar start .plain none ""

/-- The node that an alias stands for. -/
def resolved (anchors : Anchors) : Node → Node
  | .alias anchor => (anchors.lookup anchor).getD (.absent .origin)
  | node => node

def isAlias : Node → Bool
  | .alias _ => true
  | _ => false

def tag? : Node → Option Tag
  | .scalar _ _ tag _ => tag
  | .sequence _ tag _ => tag
  | .mapping _ tag _ => tag
  | .alias _ => none

def start : Node → Position
  | .scalar start _ _ _ => start
  | .sequence start _ _ => start
  | .mapping start _ _ => start
  | .alias _ => .origin

end Node

mutual

/-- Steps that it takes to tell a node from its start to its end: a collection has two
of its own. -/
def Node.extent : Node → Nat
  | .scalar .. => 1
  | .sequence _ _ items => 2 + extentOfItems items
  | .mapping _ _ entries => 2 + extentOfEntries entries
  | .alias _ => 1

def extentOfItems : List Node → Nat
  | [] => 0
  | item :: items => item.extent + extentOfItems items

def extentOfEntries : List (Node × Node) → Nat
  | [] => 0
  | (key, value) :: entries => key.extent + value.extent + extentOfEntries entries

end

structure Document where
  root : Node
  anchors : Anchors

/-- How often aliases may be followed, for each step of a document. -/
def aliasesPerStep : Nat := 100

/-- How often aliases may be followed in reading the document. -/
def Document.aliasLimit (document : Document) : Nat := aliasesPerStep * document.root.extent

end SchemaLint.Yaml
