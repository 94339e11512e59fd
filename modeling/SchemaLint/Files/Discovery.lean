import SchemaLint.Event
import SchemaLint.Files.Tree
import SchemaLint.Text.Lowercase

/-!
# Finding schema files

The schema files below a directory, depth first, the entries of each directory in
the order of their names. Hidden entries and directories of foreign code are left
out with all below them, except for the target itself. Links are not followed, but
a target that is a link to a directory is walked.
-/

namespace SchemaLint.Files

def ignoredDirectories : List String := ["node_modules", "vendor", ".git"]

/-- Entries below a target that are left out. -/
def isExcluded (name : String) (entry : Entry) : Bool :=
  name.toList.head? == some '.' ||
    (entry.isDirectory && ignoredDirectories.contains (String.ofList (Text.lower name.toList)))

/-- What a walk comes across. Names lead from the target to it. -/
inductive Visit
  | excluded (names : List String)
  | file (names : List String) (content : ByteArray)

def Visit.below (name : String) : Visit → Visit
  | .excluded names => .excluded (name :: names)
  | .file names content => .file (name :: names) content

/-- Pairs in the order of their names. -/
def sortByName {α : Type} (xs : List (String × α)) : List (String × α) :=
  xs.mergeSort fun a b => decide (a.1 ≤ b.1)

mutual

/-- All that a walk from an entry comes across, in order. -/
def Entry.visits : Entry → List Visit
  | .file content => [.file [] content]
  | .link _ => []
  | .directory children => (sortByName (visitsOfChildren children)).flatMap (·.2)

/-- What a walk comes across at each child of a directory. -/
def visitsOfChildren : List (String × Entry) → List (String × List Visit)
  | [] => []
  | (name, entry) :: rest =>
      let visits := if isExcluded name entry then [.excluded []] else entry.visits
      (name, visits.map (·.below name)) :: visitsOfChildren rest

end

structure SchemaFile where
  path : String
  content : ByteArray

/-- The path of what stands below a target. -/
def pathBelow (target : String) (names : List String) : String := names.foldl join target

/-- The schema files among what a walk came across. -/
def schemaFiles (target : String) (visits : List Visit) : List SchemaFile :=
  visits.filterMap fun
    | .file names content =>
        let path := pathBelow target names
        if isSchemaFile path then some ⟨path, content⟩ else none
    | .excluded _ => none

def exclusionEvents (target : String) (visits : List Visit) : List Event :=
  visits.filterMap fun
    | .excluded names => some (.entrySkipped (pathBelow target names))
    | .file .. => none

inductive DiscoveryError
  | targetNotFound (path : String)
  | noSchemaFiles (path : String)
  | access (e : PathError)
  deriving DecidableEq, Repr

def DiscoveryError.message : DiscoveryError → String
  | .targetNotFound path => "Target path does not exist: " ++ path
  | .noSchemaFiles path => "No .graphql or .graphqls files found in " ++ path
  | .access e => "IO error: " ++ e.message

/-- What lies behind an error, as far as it is told. -/
def DiscoveryError.causes : DiscoveryError → List String
  | .access e => [e.message]
  | _ => []

namespace FileSystem

variable (fs : FileSystem)

/-- What a walk from a target comes across. A link to a file is no file. -/
def visits (target : String) : Except DiscoveryError (List Visit) :=
  match fs.entry true target with
  | .error .notFound => .error (.targetNotFound target)
  | .error e => .error (.access e)
  | .ok (.file content) =>
      match fs.entry false target with
      | .ok (.file _) => .ok [.file [] content]
      | _ => .ok []
  | .ok found => .ok found.visits

/-- The schema files of a target. -/
def discover (target : String) : Except DiscoveryError (List SchemaFile) := do
  match schemaFiles target (← fs.visits target) with
  | [] => .error (.noSchemaFiles target)
  | files => .ok files

/-- What finding the schema files of a target tells along the way. -/
def discoveryEvents (target : String) : List Event :=
  match fs.visits target with
  | .error _ => []
  | .ok visits =>
      let found := (schemaFiles target visits).length
      exclusionEvents target visits ++ if found = 0 then [] else [.filesDiscovered found target]

end FileSystem

end SchemaLint.Files
