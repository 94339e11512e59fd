import SchemaLint.CommandLine.Run

/-!
# The program

Gathers the part of the file system that a run looks at, and prints what the run
has to say.
-/

namespace SchemaLint.Main

open Files CommandLine

/-- The absolute path of names from the root. -/
def absolutePath (place : List String) : String := "/" ++ "/".intercalate place

/-- What a file counts as that cannot be read: no text. -/
def noText : ByteArray := ⟨#[0xFF]⟩

def readContent (path : String) : IO ByteArray := do
  try IO.FS.readBinFile path catch _ => return noText

/-- What stands at a path, links not followed. -/
def fileType? (path : String) : IO (Option IO.FS.FileType) := do
  try return some (← ((← IO.currentDir) / path).symlinkMetadata).type catch _ => return none

/-- Names of the entries of a directory. -/
def listDirectory (path : String) : IO (List String) := do
  try return (← ((← IO.currentDir) / path).readDir).toList.map (·.fileName) catch _ => return []

/-- What stands at a path. Directories that a walk leaves out stay empty, and so do
files without a schema. -/
partial def loadEntry (path : String) : IO Entry := do
  match ← fileType? path with
  | some .dir =>
      let children ← (← listDirectory path).mapM fun name => do
        let child := join path name
        let isDirectory := (← fileType? child) matches some .dir
        let outline : Entry := if isDirectory then .directory [] else .link ""
        if isExcluded name outline then return (name, outline)
        return (name, ← loadEntry child)
      return .directory children
  | some .file =>
      if isSchemaFile path then return .file (← readContent path) else return .file .empty
  | _ => return .link ""

/-- The names that the real path of a link leads along. -/
def linkTarget? (path : String) : IO (Option String) := do
  try return some (← IO.FS.realPath path).toString catch _ => return none

/-- Adds all that a path leads through to a tree, and what `load` finds at its end. -/
partial def trace (load : String → IO Entry) (tree : Entry) (place : List String) :
    List String → IO Entry
  | [] => return Entry.insert (← load (absolutePath place)) place tree
  | s :: rest => do
      if namesNothing s then trace load tree place rest
      else if s == ".." then trace load tree place.dropLast rest
      else
        let here := place ++ [s]
        match ← fileType? (absolutePath here) with
        | none => return tree
        | some .symlink =>
            match ← linkTarget? (absolutePath here) with
            | none => return tree
            | some target =>
                let tree := Entry.insert (.link target) here tree
                trace load tree [] (segments target ++ rest)
        | some .dir => trace load (Entry.insert (.directory []) here tree) here rest
        | some _ =>
            if rest.isEmpty then trace load tree here rest
            else return Entry.insert (.file .empty) here tree

/-- A file with its content, whatever it is, or a directory without what it holds. -/
def loadFile (path : String) : IO Entry := do
  match ← fileType? path with
  | some .file => return .file (← readContent path)
  | _ => return .directory []

/-- Adds what a path leads to, from the working directory if it is relative. -/
def gather (load : String → IO Entry) (cwd : List String) (tree : Entry) (path : String) :
    IO Entry :=
  trace load tree (if isAbsolute path then [] else cwd) (segments path)

/-- The part of the file system that a run looks at. -/
def gatherFor (options : Options) : IO FileSystem := do
  let cwd := components (← IO.currentDir).toString
  let start := absolutePath cwd
  let tree ← trace loadFile (.directory []) [] cwd
  let tree ← ((selfAndAncestors start).flatMap fun above =>
    rootMarkers.map (join above)).foldlM (gather loadFile cwd) tree
  let plan := Plan.make ⟨tree, cwd⟩ options.target options.config
  let tree ← gather loadFile cwd tree plan.configPath
  let tree ← gather loadEntry cwd tree plan.target
  return ⟨tree, cwd⟩

/-- Colours are forced, forbidden, or used on a terminal. -/
def usesColours : IO Bool := do
  let isSet (name : String) : IO Bool := return ((← IO.getEnv name).any (· != "0"))
  if ← isSet "CLICOLOR_FORCE" then return true
  if (← IO.getEnv "NO_COLOR").isSome then return false
  (← IO.getStdout).isTty

end SchemaLint.Main

/-- Runs the program. -/
def main (arguments : List String) : IO UInt32 := do
  let fs ← match SchemaLint.CommandLine.parseArguments arguments with
    | .ok (.lint options) => SchemaLint.Main.gatherFor options
    | _ => pure ⟨.directory [], []⟩
  let outcome := SchemaLint.CommandLine.run fs (← SchemaLint.Main.usesColours) arguments
  IO.print outcome.output
  IO.eprint (outcome.errorText true)
  return outcome.code.toUInt32
