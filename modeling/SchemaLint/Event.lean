import SchemaLint.Text.Quoted
import SchemaLint.Text.Terminal

/-!
# Events

What a run has to tell besides its report. Events are values that the checks
return; only the command line writes them out.
-/

namespace SchemaLint

inductive Level
  | debug
  | info
  | warn
  | error
  deriving DecidableEq, Repr

def Level.label : Level → String
  | .debug => "DEBUG"
  | .info => "INFO"
  | .warn => "WARN"
  | .error => "ERROR"

inductive Event
  | syntaxError (file : String) (line : Nat) (message : String)
  | ruleReported (file rule : String) (count : Nat)
  | diagnosticSuppressed (file : String) (line : Nat) (rule value reason : String)
  | entrySkipped (path : String)
  | filesDiscovered (count : Nat) (target : String)
  | unboundedSuppression (entry : Nat) (reason : String)
  | unknownSuppressedRule (rule file : String)
  | fileOpened (file : String)
  | fileUnreadable (file reason : String)
  | configLoaded (path : String) (suppressions : Nat)
  | runSummary (passed total : Nat) (percent : String)
  | someSuppressed (count : Nat)
  | filesFailed (count : Nat) (percent : String)
  | totalErrors (count : Nat)
  | finished (outcome : String) (code : Nat)
  deriving DecidableEq, Repr

/-- A value that goes with an event. In a log line texts that may hold anything
stand in quotes. -/
inductive FieldValue
  | number (n : Nat)
  | bare (text : String)
  | quoted (text : String)
  deriving DecidableEq, Repr

def FieldValue.plain : FieldValue → String
  | .number n => toString n
  | .bare text => text
  | .quoted text => text

def FieldValue.shown : FieldValue → String
  | .number n => toString n
  | .bare text => text
  | .quoted text => Text.quoted text

namespace Event

def level : Event → Level
  | .syntaxError .. => .warn
  | .ruleReported .. => .debug
  | .diagnosticSuppressed .. => .debug
  | .entrySkipped .. => .debug
  | .filesDiscovered .. => .debug
  | .unboundedSuppression .. => .warn
  | .unknownSuppressedRule .. => .warn
  | .fileOpened .. => .debug
  | .fileUnreadable .. => .error
  | .configLoaded .. => .debug
  | .runSummary .. => .info
  | .someSuppressed .. => .debug
  | .filesFailed .. => .error
  | .totalErrors .. => .error
  | .finished .. => .debug

def message : Event → String
  | .syntaxError _ _ message => "Syntax error: " ++ message
  | .ruleReported .. => "Rule reported diagnostics"
  | .diagnosticSuppressed .. => "Suppressed diagnostic"
  | .entrySkipped .. => "Skipping excluded entry"
  | .filesDiscovered .. => "Discovered schema files"
  | .unboundedSuppression .. =>
      "Suppression has no file, line, rule or value and hides every diagnostic"
  | .unknownSuppressedRule .. => "Suppression names an unknown rule"
  | .fileOpened .. => "Linting schema file"
  | .fileUnreadable _ reason => "Failed to read schema file: " ++ reason
  | .configLoaded .. => "Loaded configuration"
  | .runSummary .. => "Lint summary"
  | .someSuppressed .. => "Diagnostics suppressed by configuration"
  | .filesFailed .. => "Schema files with errors"
  | .totalErrors count => "totalErrors: " ++ toString count
  | .finished outcome _ => "Finished: " ++ outcome

def fields : Event → List (String × FieldValue)
  | .syntaxError file line _ => [("file", .quoted file), ("line", .number line)]
  | .ruleReported file rule count =>
      [("file", .quoted file), ("rule", .quoted rule), ("count", .number count)]
  | .diagnosticSuppressed file line rule value reason =>
      [("file", .bare file), ("line", .number line), ("rule", .quoted rule),
        ("value", .quoted value), ("reason", .bare reason)]
  | .entrySkipped path => [("path", .bare path)]
  | .filesDiscovered count target => [("count", .number count), ("target", .bare target)]
  | .unboundedSuppression entry reason => [("entry", .number entry), ("reason", .bare reason)]
  | .unknownSuppressedRule rule file => [("rule", .bare rule), ("file", .bare file)]
  | .fileOpened file => [("file", .bare file)]
  | .fileUnreadable file _ => [("file", .bare file)]
  | .configLoaded path suppressions =>
      [("config", .bare path), ("suppressions", .number suppressions)]
  | .runSummary passed total percent =>
      [("passedFiles", .number passed), ("totalFiles", .number total),
        ("percentPassed", .bare percent)]
  | .someSuppressed count => [("suppressed", .number count)]
  | .filesFailed count percent =>
      [("filesWithAtLeastOneError", .number count), ("percentageFilesWithErrors", .bare percent)]
  | .totalErrors _ => []
  | .finished _ code => [("exit_code", .number code)]

/-- The event as a line of a log, without the time. Values are shown as they are,
but a message does not speak to the terminal. -/
def render (e : Event) : String :=
  e.level.label ++ " " ++ Text.disarmed e.message ++
    String.join (e.fields.map fun (key, value) => " " ++ key ++ "=" ++ value.shown)

end Event

end SchemaLint
