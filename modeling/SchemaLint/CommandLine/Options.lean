import SchemaLint.Text.Similarity

/-!
# Command line options

Arguments are looked at one after the other. A value of its own argument is judged
only when the next option or the end of the line comes, so an unknown option behind
it is complained about first.
-/

namespace SchemaLint.CommandLine

inductive Format
  | human
  | json
  deriving DecidableEq, Repr

def Format.label : Format → String
  | .human => "human"
  | .json => "json"

def Format.all : List Format := [.human, .json]

def Format.ofLabel? (s : String) : Option Format := Format.all.find? (·.label == s)

inductive Flag
  | targetPath
  | configPath
  | verbose
  | format
  | help
  | version
  deriving DecidableEq, Repr

namespace Flag

/-- Flags that say what to lint and how. -/
def ofLinting : List Flag := [.targetPath, .configPath, .verbose, .format]

def all : List Flag := ofLinting ++ [.help, .version]

/-- The name of a flag, then other names for it. -/
def names : Flag → List String
  | .targetPath => ["targetPath", "target-path"]
  | .configPath => ["configPath", "config-path"]
  | .verbose => ["verbose"]
  | .format => ["format"]
  | .help => ["help"]
  | .version => ["version"]

/-- What stands for the value of a flag that takes one. -/
def placeholder? : Flag → Option String
  | .targetPath => some "<PATH>"
  | .configPath => some "<FILE>"
  | .format => some "<FORMAT>"
  | _ => none

def takesValue (f : Flag) : Bool := f.placeholder?.isSome

/-- The flag as it is typed. -/
def longName (f : Flag) : String := "--" ++ f.names.headD ""

/-- What stands behind the name of a flag: the placeholder of its value. -/
def valueLabel (f : Flag) : String :=
  match f.placeholder? with
  | some p => " " ++ p
  | none => ""

/-- The flag as texts for the user show it. -/
def label (f : Flag) : String := f.longName ++ f.valueLabel

def ofName? (name : String) : Option Flag := all.find? (·.names.contains name)

def ofLetter? : Char → Option Flag
  | 'h' => some .help
  | 'V' => some .version
  | _ => none

def allNames : List String := all.flatMap (·.names)

end Flag

inductive ArgumentError
  /-- `used` are the flags that the line has, or was meant to have. -/
  | unexpectedArgument (argument : String) (similar : Option String) (used : List Flag)
  /-- `isFirst` if no other option has been judged before. -/
  | unexpectedValue (value : String) (flag : Flag) (isFirst : Bool)
  | repeated (flag : Flag)
  | missingValue (flag : Flag)
  | invalidValue (value : String) (flag : Flag) (similar : Option String)
  deriving DecidableEq, Repr

structure Options where
  target : Option String
  config : Option String
  isVerbose : Bool
  format : Format
  deriving DecidableEq, Repr

inductive Request
  | lint (options : Options)
  | help (isLong : Bool)
  | version
  deriving DecidableEq, Repr

/-- The last flag, while its value is open or not yet judged. -/
inductive Pending
  | none
  | awaiting (flag : Flag)
  | filled (flag : Flag) (value : String)
  deriving DecidableEq, Repr

structure Progress where
  /-- Flags with their values, in the order of the line. -/
  given : List (Flag × String)
  pending : Pending

namespace Progress

def start : Progress := ⟨[], .none⟩

def has (p : Progress) (f : Flag) : Bool := p.given.any (·.1 == f)

def flags (p : Progress) : List Flag := p.given.map (·.1)

/-- A value that a flag does not take. Paths must not be empty. -/
def valueProblem? (f : Flag) (value : String) : Option ArgumentError :=
  if f.takesValue && value.isEmpty then some (.missingValue f)
  else if f = .format && (Format.ofLabel? value).isNone then
    some (.invalidValue value f (Text.mostSimilar? value (Format.all.map (·.label))))
  else none

/-- Adds a flag with its value. -/
def add (p : Progress) (f : Flag) (value : String) : Except ArgumentError Progress :=
  if p.has f then .error (.repeated f)
  else
    match valueProblem? f value with
    | some e => .error e
    | none => .ok { p with given := p.given ++ [(f, value)] }

/-- Judges the last flag. -/
def settle (p : Progress) : Except ArgumentError Progress :=
  match p.pending with
  | .none => .ok p
  | .awaiting f => .error (.missingValue f)
  | .filled f value => { p with pending := .none }.add f value

/-- The flags on the line when something else is complained about: a bad value
does not matter then, and of a flag that occurs twice nothing is left. -/
def mentioned (p : Progress) : List Flag :=
  match p.pending with
  | .filled f _ => if p.has f then p.flags.filter (· != f) else p.flags ++ [f]
  | _ => p.flags

end Progress

/-- A step over one argument: what was gathered, or a request that ends the line. -/
abbrev Step := Except ArgumentError (Progress ⊕ Request)

def keep (p : Progress) : Step := .ok (.inl p)

def finish (r : Request) : Step := .ok (.inr r)

/-- A flag that takes no value. -/
def readSwitch (p : Progress) (f : Flag) (isLong : Bool) : Step := do
  let p ← p.settle
  match f with
  | .help => finish (.help isLong)
  | .version => finish .version
  | f => keep (← p.add f "")

/-- Flags with one more among them. -/
def withFlag (f : Flag) (flags : List Flag) : List Flag :=
  if flags.contains f then flags else flags ++ [f]

/-- An unknown long option, with a similar one to suggest. -/
def unknownOption (p : Progress) (name : String) : ArgumentError :=
  let similar := Text.mostSimilar? name Flag.allNames
  let used :=
    match similar.bind Flag.ofName? with
    | some meant => withFlag meant p.mentioned
    | none => p.mentioned
  .unexpectedArgument ("--" ++ name) (similar.map ("--" ++ ·)) used

/-- An option, with the value behind its equals sign if it has one. -/
def readOption (p : Progress) (name : String) (value : Option String) : Step :=
  match Flag.ofName? name with
  | none => .error (unknownOption p name)
  | some f =>
      match value, f.takesValue with
      | some v, true => do keep (← (← p.settle).add f v)
      | some v, false => .error (.unexpectedValue v f p.given.isEmpty)
      | none, true => do keep { (← p.settle) with pending := .awaiting f }
      | none, false => readSwitch p f true

/-- Letters behind a single dash. -/
def readLetters (p : Progress) : List Char → Step
  | [] => keep p
  | c :: cs =>
      match Flag.ofLetter? c with
      | none => .error (.unexpectedArgument (String.ofList ['-', c]) none [])
      | some f => do
          match ← readSwitch p f false with
          | .inl p => readLetters p cs
          | .inr r => finish r

/-- A word that is no option: the value of the last one, if that is open. -/
def readWord (p : Progress) (word : String) : Step :=
  match p.pending with
  | .awaiting f => keep { p with pending := .filled f word }
  | _ => .error (.unexpectedArgument word none [])

/-- The name and the value of an option with an equals sign. -/
def splitOption (cs : List Char) : String × Option String :=
  let name := String.ofList (cs.takeWhile (· != '='))
  match cs.dropWhile (· != '=') with
  | [] => (name, none)
  | _ :: value => (name, some (String.ofList value))

def readArgument (p : Progress) (argument : String) : Step :=
  match argument.toList with
  | '-' :: '-' :: cs =>
      let (name, value) := splitOption cs
      readOption p name value
  | '-' :: c :: cs => readLetters p (c :: cs)
  | _ => readWord p argument

def optionsOf (p : Progress) : Options :=
  let value (f : Flag) : Option String := p.given.lookup f
  ⟨value .targetPath, value .configPath, p.has .verbose,
    ((value .format).bind Format.ofLabel?).getD .human⟩

/-- The end of the options. -/
def finishOptions (p : Progress) : Except ArgumentError Request := do
  return .lint (optionsOf (← p.settle))

def readArguments (p : Progress) : List String → Except ArgumentError Request
  | [] => finishOptions p
  | argument :: rest =>
      if argument = "--" then
        -- Only words follow, and there is no use for one.
        match rest with
        | [] => finishOptions p
        | word :: _ => .error (.unexpectedArgument word none [])
      else do
        match ← readArgument p argument with
        | .inl p => readArguments p rest
        | .inr r => return r

/-- What a command line asks for. -/
def parseArguments (arguments : List String) : Except ArgumentError Request :=
  readArguments .start arguments

end SchemaLint.CommandLine
