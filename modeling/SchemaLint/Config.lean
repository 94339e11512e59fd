import SchemaLint.Diagnostic
import SchemaLint.Rule.Basic

/-!
# Configuration

Which groups of rules run, and which diagnostics are hidden. An empty selector of
a suppression, or line 0, stands for anything.
-/

namespace SchemaLint

structure Settings where
  /-- Run the conventions on order and on Relay types. -/
  strictMode : Bool := true
  /-- Run the checks on federation. -/
  validateFederation : Bool := true
  /-- Run the rules on descriptions. -/
  checkDescriptions : Bool := true
  deriving DecidableEq, Repr

/-- The settings let rules of the group run. -/
def Settings.enables (s : Settings) : RuleGroup → Bool
  | .core => true
  | .description => s.checkDescriptions
  | .convention => s.strictMode
  | .federation => s.validateFederation

structure Suppression where
  /-- The end of the path of a schema file. -/
  file : String := ""
  line : Nat := 0
  rule : String := ""
  value : String := ""
  /-- Why the diagnostic is acceptable; it selects nothing. -/
  reason : String := ""
  deriving DecidableEq, Repr

/-- What a suppression looks at in a diagnostic. -/
structure Coordinates where
  file : String
  line : Nat
  rule : String
  value : String
  deriving DecidableEq, Repr

/-- A path with slashes for backslashes. -/
def normalizedPath (path : String) : List Char :=
  path.toList.map fun c => if c = '\\' then '/' else c

namespace Suppression

def matchesFile (s : Suppression) (file : String) : Bool :=
  s.file.isEmpty || (normalizedPath s.file).isSuffixOf (normalizedPath file)

def hides (s : Suppression) (c : Coordinates) : Bool :=
  s.matchesFile c.file && (s.line == 0 || s.line == c.line) &&
    (s.rule.isEmpty || s.rule == c.rule) && (s.value.isEmpty || s.value == c.value)

/-- Selects nothing in particular, and so hides everything. -/
def isUnbounded (s : Suppression) : Bool :=
  s.file.isEmpty && s.line == 0 && s.rule.isEmpty && s.value.isEmpty

end Suppression

structure Config where
  settings : Settings := {}
  suppressions : List Suppression := []
  deriving DecidableEq, Repr

def Diagnostic.coordinates (d : Diagnostic) : Coordinates :=
  ⟨d.file, d.line, d.ruleId, d.suppressionValue⟩

/-- The first suppression that hides what stands there. -/
def Config.suppression? (config : Config) (c : Coordinates) : Option Suppression :=
  config.suppressions.find? (·.hides c)

def Config.suppresses (config : Config) (c : Coordinates) : Bool :=
  (config.suppression? c).isSome

end SchemaLint
