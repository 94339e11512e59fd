import SchemaLint.Files.Path

/-!
# Trees of files

A file system as a tree, and what a path in it leads to. Links are followed on the
way, and at the end if that is asked for. A path that goes through a file, or ends
with a slash behind one, is no path.
-/

namespace SchemaLint.Files

inductive Entry
  | file (content : ByteArray)
  /-- Names are different from each other and in any order. -/
  | directory (children : List (String × Entry))
  | link (target : String)

inductive PathError
  | notFound
  | notADirectory
  | isADirectory
  | tooManyLinks
  | nameTooLong
  | holdsNull
  | notText
  deriving DecidableEq, Repr

def PathError.message : PathError → String
  | .notFound => "No such file or directory (os error 2)"
  | .notADirectory => "Not a directory (os error 20)"
  | .isADirectory => "Is a directory (os error 21)"
  | .tooManyLinks => "Too many levels of symbolic links (os error 40)"
  | .nameTooLong => "File name too long (os error 36)"
  | .holdsNull => "file name contained an unexpected NUL byte"
  | .notText => "stream did not contain valid UTF-8"

namespace Entry

def children? : Entry → Option (List (String × Entry))
  | .directory children => some children
  | _ => none

def child? (entry : Entry) (name : String) : Option Entry :=
  (entry.children?.getD []).lookup name

/-- The entry below by names, without regard to links. -/
def get? (entry : Entry) : List String → Option Entry
  | [] => some entry
  | name :: names => (entry.child? name).bind (·.get? names)

def isFile : Entry → Bool
  | .file _ => true
  | _ => false

def isDirectory : Entry → Bool
  | .directory _ => true
  | _ => false

/-- Changes or adds the child of a name. -/
def setChild (name : String) (new : Entry) : List (String × Entry) → List (String × Entry)
  | [] => [(name, new)]
  | (n, e) :: rest => if n == name then (n, new) :: rest else (n, e) :: setChild name new rest

/-- The tree with an entry at a place, and directories where they are missing on the
way. An empty directory leaves one that is there as it is. -/
def insert (new : Entry) : List String → Entry → Entry
  | [], .directory children =>
      match new with
      | .directory [] => .directory children
      | new => new
  | [], _ => new
  | name :: names, tree =>
      let below := (tree.child? name).getD (.directory [])
      .directory (setChild name (insert new names below) (tree.children?.getD []))

end Entry

structure FileSystem where
  root : Entry
  /-- Where relative paths start: names from the root, none of them a link. -/
  workingDirectory : List String

namespace FileSystem

variable (fs : FileSystem)

/-- How many links a path may lead through. -/
def linkLimit : Nat := 40

/-- Bytes of the longest name. -/
def nameLimit : Nat := 255

/-- Bytes of the longest path. -/
def pathLimit : Nat := 4095

/-- The names from the root to where segments lead from a place. The last name is
that of a link only if links at the end are not followed. -/
def walk (followLast : Bool) (links : Nat) (place : List String) (segments : List String) :
    Except PathError (List String) :=
  match segments with
  | [] => .ok place
  | s :: rest =>
      match fs.root.get? place with
      | none => .error .notFound
      | some here =>
          if !here.isDirectory then .error .notADirectory
          else if namesNothing s then walk followLast links place rest
          else if s == ".." then walk followLast links place.dropLast rest
          else if nameLimit < s.utf8ByteSize then .error .nameTooLong
          else
            match here.child? s with
            | none => .error .notFound
            | some (.link target) =>
                if rest.isEmpty && !followLast then .ok (place ++ [s])
                else
                  match links with
                  | 0 => .error .tooManyLinks
                  | links + 1 =>
                      walk followLast links (if isAbsolute target then [] else place)
                        (Files.segments target ++ rest)
            | some _ => walk followLast links (place ++ [s]) rest
termination_by (links, segments.length)

/-- The place that a path leads to, as names from the root. -/
def locate (followLast : Bool) (path : String) : Except PathError (List String) :=
  if path.toList.contains '\x00' then .error .holdsNull
  else if path.isEmpty then .error .notFound
  else if pathLimit < path.utf8ByteSize then .error .nameTooLong
  else
    fs.walk followLast linkLimit (if isAbsolute path then [] else fs.workingDirectory)
      (Files.segments path)

/-- What a path leads to. -/
def entry (followLast : Bool) (path : String) : Except PathError Entry := do
  let place ← fs.locate followLast path
  match fs.root.get? place with
  | some entry => .ok entry
  | none => .error .notFound

/-- A path leads somewhere, links followed. -/
def holds (path : String) : Bool := (fs.entry true path).isOk

/-- A path leads to a file, links followed. -/
def isFile (path : String) : Bool := (fs.entry true path).toOption.any (·.isFile)

/-- The absolute path of the working directory. -/
def workingPath : String := "/" ++ "/".intercalate fs.workingDirectory

end FileSystem

/-- The text that bytes stand for. -/
def decodeText (content : ByteArray) : Except PathError String :=
  match String.fromUTF8? content with
  | some text => .ok text
  | none => .error .notText

/-- The text of the file that a path leads to. -/
def FileSystem.readText (fs : FileSystem) (path : String) : Except PathError String := do
  match ← fs.entry true path with
  | .file content => decodeText content
  | _ => .error .isADirectory

end SchemaLint.Files
