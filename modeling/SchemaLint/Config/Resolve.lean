import SchemaLint.Config.Parse
import SchemaLint.Files.Tree

/-!
# Finding the configuration

The root of a project is the nearest directory, from some place upwards, that has a
repository or a configuration in it. The configuration there applies unless another
one is named; only one that is named has to exist.
-/

namespace SchemaLint

open Files

def configFileName : String := ".graphql-linter.yml"

/-- Entries that mark the root of a project. -/
def rootMarkers : List String := [".git", configFileName]

def holdsMarker (fs : FileSystem) (path : String) : Bool :=
  rootMarkers.any fun marker => fs.holds (join path marker)

/-- The root of the project around an absolute path; the path itself if no marker is
found. -/
def projectRoot (fs : FileSystem) (start : String) : String :=
  ((selfAndAncestors start).find? (holdsMarker fs)).getD start

inductive ConfigError
  | access (e : PathError)
  | notFound (path : String)
  | invalid (e : InvalidConfig)
  deriving DecidableEq, Repr

def ConfigError.message : ConfigError → String
  | .access e => "IO error: " ++ e.message
  | .notFound path => "Configuration file not found: " ++ path
  | .invalid e => e.message

/-- What lies behind an error, as far as it is told. -/
def ConfigError.causes : ConfigError → List String
  | .access e => [e.message]
  | _ => []

namespace Config

/-- The configuration in a file. -/
def load (fs : FileSystem) (path : String) : Except ConfigError Config :=
  match fs.readText path with
  | .error e => .error (.access e)
  | .ok text => (Config.parse path text).mapError .invalid

/-- The configuration in a file, or the default if there is none and it was not
asked for. -/
def resolve (fs : FileSystem) (path : String) (isExplicit : Bool) : Except ConfigError Config :=
  if fs.isFile path then load fs path
  else if isExplicit then .error (.notFound path)
  else .ok {}

end Config

end SchemaLint
