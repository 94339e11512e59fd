/-!
# Paths

Paths are texts with slashes between their parts. Empty parts and single dots
name nothing of their own.
-/

namespace SchemaLint.Files

/-- The parts of a text between slashes. -/
def splitSlash : List Char → List (List Char)
  | [] => [[]]
  | c :: cs =>
      if c = '/' then [] :: splitSlash cs
      else
        match splitSlash cs with
        | [] => [[c]]
        | p :: ps => (c :: p) :: ps

/-- All parts of a path, the empty ones too: a path from the root starts with one. -/
def segments (path : String) : List String := (splitSlash path.toList).map String.ofList

def namesNothing (segment : String) : Bool := segment == "" || segment == "."

/-- The parts of a path that name something. -/
def components (path : String) : List String := (segments path).filter (!namesNothing ·)

def isAbsolute (path : String) : Bool := path.toList.head? == some '/'

/-- A path below another one, or the second path if it starts at the root. -/
def join (base path : String) : String :=
  if isAbsolute path || base.isEmpty then path
  else if base.toList.getLast? == some '/' then base ++ path
  else base ++ "/" ++ path

/-- The last part of a path, unless that leads upwards. -/
def fileName? (path : String) : Option String :=
  (components path).getLast?.filter (· != "..")

/-- What stands behind the last dot of a name, if something stands before it. -/
def nameExtension? (name : String) : Option String :=
  let behind := (name.toList.reverse.takeWhile (· != '.')).reverse
  let before := name.toList.take (name.toList.length - behind.length - 1)
  if before.isEmpty then none else some (String.ofList behind)

def extension? (path : String) : Option String := (fileName? path).bind nameExtension?

def lowerAscii (s : String) : String :=
  String.ofList (s.toList.map fun c =>
    if 'A' ≤ c && c ≤ 'Z' then Char.ofNat (c.toNat + 32) else c)

/-- What stands above each part that names something, with the last segment first
throughout. -/
def above : List String → List (List String)
  | [] => []
  | s :: ss => if namesNothing s then above ss else ss.dropWhile namesNothing :: above ss

/-- An absolute path and the directories above it, the nearest first. -/
def selfAndAncestors (path : String) : List String :=
  path :: (above (segments path).tail.reverse).map fun up => "/" ++ "/".intercalate up.reverse

def schemaExtensions : List String := ["graphql", "graphqls"]

/-- The extension says that a file holds a schema, in whatever case. -/
def isSchemaFile (path : String) : Bool :=
  (extension? path).any fun e => schemaExtensions.contains (lowerAscii e)

end SchemaLint.Files
