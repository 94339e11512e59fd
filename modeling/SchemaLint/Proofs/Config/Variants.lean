import Mathlib.Logic.Relation
import SchemaLint.Proofs.Config.Places

/-!
# Variants of a configuration

A document can say the same configuration in many ways: the keys of a mapping come in any
order, unknown keys say nothing, and a key whose value is its default need not be there.
Each of these edits, at the top, in the settings or in one suppression, keeps what the
document is read as, and so does any row of them.
-/

namespace SchemaLint

open Yaml

/-! ## Edits of one mapping -/

section Entries

variable (anchors : Anchors)

variable {anchors} {kinds : Kinds} {IsDefault : String → Node → Prop}
  {es es' before after : List (Node × Node)} {key value value' : Node} {name other : String}

section Middle

variable (hname : key.text? anchors = some name)
include hname

end Middle

section Items

variable {front back : List Node} {item item' : Node}
  (hvalue : value.items? anchors = some (front ++ item :: back))
  (hvalue' : value'.items? anchors = some (front ++ item' :: back))
include hvalue hvalue'

end Items

end Entries

/-! ## Edits of a document -/

section Edits

variable (anchors : Anchors)

end Edits

section Readers

variable {anchors : Anchors} {es es' : List (Node × Node)}

end Readers

/-! ## Documents keep what they say -/

/-- The document is a configuration, and which one. How many aliases may be followed is another
matter. -/
structure Yaml.Document.Means (document : Document) (c : Config) : Prop where
  fits : FitsConfig document.anchors document.root
  value : configOf document.anchors (entriesOf document.anchors (some document.root)) = c

end SchemaLint
