import SchemaLint.Event
import SchemaLint.Json
import SchemaLint.Report

/-!
# Output of a run

The report on the terminal, with or without colours, or as JSON. Without colours
the diagnostics look as they do in the report itself.
-/

namespace SchemaLint.CommandLine

inductive Colour
  | cyan
  | red
  | boldRed
  | green
  | dimmed
  deriving DecidableEq, Repr

def Colour.code : Colour → String
  | .cyan => "36"
  | .red => "31"
  | .boldRed => "1;31"
  | .green => "32"
  | .dimmed => "2"

/-- Ends all colours. -/
def resetCode : String := "\x1b[0m"

def Colour.start (c : Colour) : String := "\x1b[" ++ c.code ++ "m"

/-- A text in a colour. Where the text itself ends all colours, it starts again. -/
def paint (colours : Bool) (c : Colour) (text : String) : String :=
  if colours then c.start ++ text.replace resetCode (resetCode ++ c.start) ++ resetCode else text

/-- The rule and the text of a message, at its first colon with a space. -/
def ruleAndText (d : Diagnostic) : String × String :=
  match Text.splitAtFirst? [':', ' '] d.message.toList with
  | some (rule, text) => (String.ofList rule, String.ofList text)
  | none => (d.ruleId, d.message)

def formatDiagnostic (colours : Bool) (d : Diagnostic) : String :=
  let (rule, text) := ruleAndText d
  paint colours .cyan d.file ++ ":" ++ paint colours .cyan (toString d.line) ++ ": " ++
    paint colours .boldRed rule ++ ": " ++ text ++ "\n  " ++ paint colours .dimmed d.lineContent ++
    "\n"

/-- The diagnostics of a report, one after the other. -/
def diagnosticBlock (colours : Bool) (r : RunReport) : String :=
  String.join (r.diagnostics.map (formatDiagnostic colours))

/-- The last line: how many files passed. -/
def verdict (colours : Bool) (r : RunReport) : String :=
  if r.isSuccess then paint colours .green ("✓ " ++ r.allPassedText)
  else
    paint colours .red "✗" ++ " " ++ toString r.passedFiles ++ "/" ++ toString r.totalFiles ++
      " file(s) passed (" ++ r.percentPassed ++ ")"

def humanOutput (colours : Bool) (r : RunReport) : String :=
  diagnosticBlock colours r ++ "\n" ++ r.renderErrorTypes ++ "\n" ++ verdict colours r ++ "\n"

def diagnosticJson (d : Diagnostic) : Json :=
  .object ([("file", .text d.file), ("line", .number d.line), ("message", .text d.message),
    ("line_content", .text d.lineContent)] ++ (d.value.map fun v => ("value", .text v)).toList)

def summaryJson (s : Summary) : Json :=
  .object [("totalFiles", .number s.totalFiles), ("passedFiles", .number s.passedFiles),
    ("filesWithAtLeastOneError", .number s.filesWithErrors), ("totalErrors", .number s.totalErrors),
    ("percentPassed", .text s.percentPassed),
    ("percentageFilesWithErrors", .text s.percentWithErrors),
    ("errorTypeSummary", .object (s.errorTypes.map fun (id, count) => (id, .number count)))]

def jsonOutput (r : RunReport) : String :=
  (Json.object [("diagnostics", .list (r.diagnostics.map diagnosticJson)),
    ("summary", summaryJson r.summary)]).pretty "" ++ "\n"

/-- Events that go with a report on the terminal. -/
def reportEvents (r : RunReport) : List Event :=
  .runSummary r.passedFiles r.totalFiles r.percentPassed ::
    (if 0 < r.totalSuppressed then [.someSuppressed r.totalSuppressed] else []) ++
    if r.isSuccess then []
    else [.filesFailed r.filesWithErrors r.percentWithErrors, .totalErrors r.totalErrors]

end SchemaLint.CommandLine
