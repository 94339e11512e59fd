import Mathlib.Data.List.Forall2
import SchemaLint.Config.Decode

/-!
# Trees that are configurations

Decoding goes through a tree in the order of the document and stops at the first problem.
Whether there is a problem at all does not depend on any order: keys are texts, a known key
comes once, and its value is of its kind. So a tree either fits as a whole or is refused as a
whole, and in a tree that fits the value of a known key can be found by its name alone.
-/

namespace SchemaLint

open Yaml

section Reading

variable (anchors : Anchors)

/-! ## Mappings -/

/-- The name that the key of an entry spells. -/
def nameOf? (entry : Node × Node) : Option String := entry.1.text? anchors

/-- Known keys of a mapping, with what their values have to be. -/
abbrev Kinds := List (String × (Node → Prop))

/-- The two entries are not for one known key. -/
def Apart (kinds : Kinds) (a b : Node × Node) : Prop :=
  ∀ name, (kinds.lookup name).isSome → nameOf? anchors a = some name →
    nameOf? anchors b ≠ some name

structure FitsFields (kinds : Kinds) (entries : List (Node × Node)) : Prop where
  keys : ∀ entry ∈ entries, (nameOf? anchors entry).isSome
  once : entries.Pairwise (Apart anchors kinds)
  values : ∀ entry ∈ entries, ∀ name P, kinds.lookup name = some P →
    nameOf? anchors entry = some name → P entry.2

/-- The node is a mapping, or nothing, and its entries fit. -/
def FitsMapping (kinds : Kinds) (node : Node) : Prop :=
  ∃ entries, node.entries? anchors = some entries ∧ FitsFields anchors kinds entries

/-- The node is a sequence, or nothing, of items that are `P`. -/
def FitsSequence (P : Node → Prop) (node : Node) : Prop :=
  ∃ items, node.items? anchors = some items ∧ ∀ item ∈ items, P item

variable {anchors}

theorem Apart.symm {kinds : Kinds} {a b : Node × Node} (h : Apart anchors kinds a b) :
    Apart anchors kinds b a := fun name hknown hb ha => h name hknown ha hb

section Cons

variable {kinds : Kinds} {entry : Node × Node} {entries : List (Node × Node)} {name : String}
  (hname : nameOf? anchors entry = some name)
include hname

end Cons

theorem FitsFields.perm {kinds : Kinds} {es es' : List (Node × Node)} (hperm : es.Perm es')
    (h : FitsFields anchors kinds es) : FitsFields anchors kinds es' where
  keys entry hentry := h.keys entry (hperm.mem_iff.mpr hentry)
  once := (hperm.pairwise_iff Apart.symm).mp h.once
  values entry hentry := h.values entry (hperm.mem_iff.mpr hentry)

variable (anchors)

def IsBoolean (node : Node) : Prop := (node.boolean? anchors).isSome

def IsLineNumber (node : Node) : Prop := (node.lineNumber? anchors).isSome

def IsText (node : Node) : Prop := (node.text? anchors).isSome

def settingNames : List String := ["strictMode", "validateFederation", "checkDescriptions"]

/-- Fields of a suppression that are texts. -/
def textNames : List String := ["file", "rule", "value", "reason"]

def settingKinds : Kinds := settingNames.map (·, IsBoolean anchors)

def suppressionKinds : Kinds := ("line", IsLineNumber anchors) :: textNames.map (·, IsText anchors)

def configKinds : Kinds :=
  [("settings", FitsMapping anchors (settingKinds anchors)),
    ("suppressions", FitsSequence anchors (FitsMapping anchors (suppressionKinds anchors)))]

/-- The node is a configuration. -/
def FitsConfig : Node → Prop := FitsMapping anchors (configKinds anchors)

end Reading

namespace Yaml

mutual

/-- An alias stands somewhere in the tree. -/
def Node.hasAlias : Node → Bool
  | .scalar .. => false
  | .sequence _ _ items => haveAlias items
  | .mapping _ _ entries => entriesHaveAlias entries
  | .alias _ => true

def haveAlias : List Node → Bool
  | [] => false
  | item :: items => item.hasAlias || haveAlias items

def entriesHaveAlias : List (Node × Node) → Bool
  | [] => false
  | (key, value) :: entries => key.hasAlias || value.hasAlias || entriesHaveAlias entries

end

variable {node : Node} (h : node.hasAlias = false) (anchors : Anchors)
include h

end Yaml

variable (anchors : Anchors)

end SchemaLint
