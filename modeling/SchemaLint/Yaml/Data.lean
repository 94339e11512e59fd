import SchemaLint.Text.Naming
import SchemaLint.Text.Quoted
import SchemaLint.Yaml.Meaning
import SchemaLint.Yaml.Node

/-!
# Documents as data

A document can be read as data, whatever it is meant for, if no mapping has the
same key twice, integers fit into 64 bits, scalars are what their tags say, and
following the aliases comes to an end within bounds on depth and number. A local tag
is part of the data.
-/

namespace SchemaLint.Yaml

open Number Text

/-- A text for a number that equal numbers share. -/
def numberPrint : Binary64 → String
  | .finite _ 0 _ => "0"
  | .finite negative m e => (if negative then "-" else "") ++ toString m ++ "^" ++ toString e
  | .infinite negative => if negative then "-inf" else "inf"
  | .notANumber => "nan"

/-- A text for the meaning of a scalar that equal meanings share. -/
def Meaning.print? : Meaning → Option String
  | .nothing => some "~"
  | .boolean b => some (if b then "true" else "false")
  | .integer n => some (toString n)
  | .wideInteger => none
  | .floating x => some ("float " ++ numberPrint x)
  | .text s => some (quoted s)
  | .malformed _ => none

/-- A further mark in front of the name of a tag makes no difference. -/
def unmarked (name : String) : String :=
  match name.toList with
  | '!' :: c :: cs => String.ofList (c :: cs)
  | _ => name

/-- What a local tag adds to the text for a node. It must have a name. -/
def tagPrint? (tag : Option Tag) : Option String :=
  match tag.bind (·.localName?) with
  | none => some ""
  | some name => if name.isEmpty then none else some ("!" ++ quoted (unmarked name))

/-- Follows an alias, of which only so many are allowed. -/
def spendAlias (node : Node) : StateT Nat Option Unit := fun left =>
  if node.isAlias then (if left = 0 then none else some ((), left - 1)) else some ((), left)

/-- A text that two nodes share if they hold the same data. The first argument
bounds how deep collections may be nested. -/
def Node.print? (anchors : Anchors) : Nat → Node → StateT Nat Option String
  | depth, node => do
      spendAlias node
      let node := node.resolved anchors
      let tag ← tagPrint? node.tag?
      match depth, node with
      | _, .scalar _ style tag? text => return tag ++ (← (scalarMeaning style tag? text).print?)
      | depth + 1, .sequence _ _ items => do
          let parts ← items.mapM (print? anchors depth)
          return tag ++ "[" ++ ",".intercalate parts ++ "]"
      | depth + 1, .mapping _ _ entries => do
          let parts ← entries.mapM fun (key, value) => do
            return (← print? anchors depth key, ← print? anchors depth value)
          if !(parts.map (·.1)).Nodup then failure
          let shown := sorted (parts.map fun (k, v) => k ++ ":" ++ v)
          return tag ++ "\x7b" ++ ",".intercalate shown ++ "\x7d"
      | _, _ => failure

/-- How deep collections may be nested. -/
def nestingLimit : Nat := 128

/-- The document can be read as data. -/
def Document.isData (document : Document) : Bool :=
  ((document.root.print? document.anchors nestingLimit).run document.aliasLimit).isSome

end SchemaLint.Yaml
