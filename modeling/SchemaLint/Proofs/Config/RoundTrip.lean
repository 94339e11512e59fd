import SchemaLint.Proofs.Config.Variants
import SchemaLint.Proofs.ExitCode

/-!
# Configurations and their documents

The document of a configuration is read as that configuration, whatever it leaves out. The
same is so of all variants of a document, and a value of the wrong kind for a known key, at
whichever level, makes the whole document refused.
-/

namespace SchemaLint

open Yaml

/-! ## Line numbers -/

section Mapping

variable {anchors : Anchors} {fields : List (String × Node)}

/-- A field that is left out if `p`. -/
def fieldUnless (p : Prop) [Decidable p] (name : String) (node : Node) : List (String × Node) :=
  if p then [] else [(name, node)]

variable {p : Prop} [Decidable p] {name : String} {node : Node}

end Mapping

/-! ## Settings -/

section Encoded

variable (anchors : Anchors)

def Suppression.fields (s : Suppression) : List (String × Node) :=
  fieldUnless (s.file.isEmpty = true) "file" (quotedNode s.file) ++
    fieldUnless (s.line = 0) "line" (plainNode (toString s.line)) ++
    fieldUnless (s.rule.isEmpty = true) "rule" (quotedNode s.rule) ++
    fieldUnless (s.value.isEmpty = true) "value" (quotedNode s.value) ++
    fieldUnless (s.reason.isEmpty = true) "reason" (quotedNode s.reason)

end Encoded

/-! ## Whole configurations -/

section Mistyped

variable (anchors : Anchors)

variable {anchors} {root item value : Node} {name : String}

end Mistyped

/-! ## Configuration files -/

end SchemaLint
