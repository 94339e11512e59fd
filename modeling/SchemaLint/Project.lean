import SchemaLint.Files.Discovery
import SchemaLint.Lint

/-!
# Linting a project

All schema files of a target, one after the other. A file that is no text gets a
diagnostic of its own and does not stop the run.
-/

namespace SchemaLint

open Files

/-- The diagnostic of a file that cannot be read. -/
def unreadable (path : String) (e : PathError) : Diagnostic :=
  .make path 0 unreadableFileRule ("Failed to read schema file: " ++ e.message) "" none

def lintFile (config : Config) (file : SchemaFile) : FileReport :=
  match decodeText file.content with
  | .ok source => lintSource file.path source config
  | .error e => config.retain file.path [unreadable file.path e]

def fileEvents (config : Config) (file : SchemaFile) : List Event :=
  .fileOpened file.path ::
    match decodeText file.content with
    | .ok source => lintEvents file.path source config
    | .error e =>
        .fileUnreadable file.path e.message ::
          config.suppressionEvents [unreadable file.path e]

/-- Doubts about a suppression: it hides everything, or names no rule. -/
def suspicion? (entry : Nat) (s : Suppression) : Option Event :=
  if s.isUnbounded then some (.unboundedSuppression entry s.reason)
  else if !s.rule.isEmpty && !allRuleIds.contains s.rule then
    some (.unknownSuppressedRule s.rule s.file)
  else none

def suspicions (config : Config) : List Event :=
  (config.suppressions.zipIdx 1).filterMap fun (s, entry) => suspicion? entry s

/-- The report on all schema files of a target. -/
def lintTarget (fs : FileSystem) (target : String) (config : Config) :
    Except DiscoveryError RunReport := do
  return ⟨(← fs.discover target).map (lintFile config)⟩

/-- What linting a target tells along the way. -/
def targetEvents (fs : FileSystem) (target : String) (config : Config) : List Event :=
  fs.discoveryEvents target ++
    match fs.discover target with
    | .error _ => []
    | .ok files => suspicions config ++ files.flatMap (fileEvents config)

end SchemaLint
