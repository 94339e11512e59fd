import SchemaLint.CommandLine.Output
import SchemaLint.CommandLine.Usage
import SchemaLint.Config.Resolve
import SchemaLint.Project

/-!
# A run of the program

What the program prints and how it ends, from its arguments and the files it finds.
-/

namespace SchemaLint.CommandLine

open Files

/-- How linting ends: all files pass, some do not, the configuration is at fault, or
the target. -/
inductive Ending
  | success
  | lintErrors
  | configError
  | accessError
  deriving DecidableEq, Repr

def Ending.code : Ending → Nat
  | .success => 0
  | .lintErrors => 1
  | .configError => 2
  | .accessError => 4

def Ending.label : Ending → String
  | .success => "success"
  | .lintErrors => "lint errors"
  | .configError => "configuration error"
  | .accessError => "I/O error"

/-- Linting could not be done. -/
inductive Failure
  | config (path : String) (e : ConfigError)
  | target (path : String) (e : DiscoveryError)
  deriving DecidableEq, Repr

def Failure.ending : Failure → Ending
  | .config .. => .configError
  | .target .. => .accessError

/-- The failure and all that lies behind it. -/
def Failure.message : Failure → String
  | .config path e =>
      ": ".intercalate (("Failed to load config from " ++ path) :: e.message :: e.causes)
  | .target path e => ": ".intercalate (("Failed to lint " ++ path) :: e.message :: e.causes)

/-- Where a run looks for its configuration and its schema files. -/
structure Plan where
  configPath : String
  configIsExplicit : Bool
  target : String
  deriving DecidableEq, Repr

/-- What is not given on the command line is the root of the project, and the
configuration there. -/
def Plan.make (fs : FileSystem) (target config : Option String) : Plan :=
  let root := projectRoot fs fs.workingPath
  ⟨config.getD (join root configFileName), config.isSome, target.getD root⟩

def Plan.config (fs : FileSystem) (plan : Plan) : Except Failure Config :=
  (Config.resolve fs plan.configPath plan.configIsExplicit).mapError (.config plan.configPath)

/-- Lints what is planned. -/
def Plan.lint (fs : FileSystem) (plan : Plan) : Except Failure RunReport := do
  let config ← plan.config fs
  (lintTarget fs plan.target config).mapError (.target plan.target)

def endingOf : Except Failure RunReport → Ending
  | .ok report => if report.isSuccess then .success else .lintErrors
  | .error failure => failure.ending

/-- Something for the error output. -/
inductive Notice
  | event (e : Event)
  /-- Whole lines. -/
  | text (text : String)
  deriving DecidableEq, Repr

structure Outcome where
  code : Nat
  output : String
  notices : List Notice
  /-- Debugging events are asked for. -/
  isVerbose : Bool

def failureLine (format : Format) (colours : Bool) (failure : Failure) : String :=
  match format with
  | .human => paint colours .red "✗" ++ " " ++ failure.message
  | .json => (Json.object [("error", .text failure.message)]).compact

/-- What loading the configuration and linting tell along the way. -/
def Plan.events (fs : FileSystem) (plan : Plan) : List Event :=
  match plan.config fs with
  | .error _ => []
  | .ok config =>
      .configLoaded plan.configPath config.suppressions.length ::
        targetEvents fs plan.target config

def lintOutcome (fs : FileSystem) (colours : Bool) (options : Options) : Outcome :=
  let plan := Plan.make fs options.target options.config
  let result := plan.lint fs
  let ending := endingOf result
  let output :=
    match result, options.format with
    | .ok report, .human => humanOutput colours report
    | .ok report, .json => jsonOutput report
    | .error _, _ => ""
  let notices :=
    match result, options.format with
    | .ok report, .human => (reportEvents report).map .event
    | .ok _, .json => []
    | .error failure, format => [.text (failureLine format colours failure ++ "\n")]
  ⟨ending.code, output,
    (plan.events fs).map .event ++ notices ++ [.event (.finished ending.label ending.code)],
    options.isVerbose⟩

/-- A line that makes no sense ends with this code. -/
def usageErrorCode : Nat := 2

def run (fs : FileSystem) (colours : Bool) (arguments : List String) : Outcome :=
  match parseArguments arguments with
  | .error e => ⟨usageErrorCode, "", [.text (e.message colours)], false⟩
  | .ok (.help isLong) => ⟨0, helpText colours isLong, [], false⟩
  | .ok .version => ⟨0, versionText, [], false⟩
  | .ok (.lint options) => lintOutcome fs colours options

/-- An event is worth a line of the log. -/
def isLogged (isVerbose : Bool) (e : Event) : Bool := isVerbose || e.level != .debug

/-- The error output; the log may be switched off. -/
def Outcome.errorText (o : Outcome) (logging : Bool) : String :=
  String.join (o.notices.map fun
    | .event e => if logging && isLogged o.isVerbose e then e.render ++ "\n" else ""
    | .text text => text)

/-- The lines of the error output. -/
def Outcome.errorLines (o : Outcome) (logging : Bool) : List String :=
  (Text.lines (o.errorText logging).toList).map String.ofList

end SchemaLint.CommandLine
