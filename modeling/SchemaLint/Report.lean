import SchemaLint.Catalogue
import SchemaLint.Number.Fixed
import SchemaLint.Text.Naming

/-!
# Reports

The outcome for a file, and the totals of a run. Most diagnostics count as an
error each; missing reasons for deprecations count once for a file, and so do the
federation checks.
-/

namespace SchemaLint

open Number

/-- How a diagnostic counts. -/
inductive ErrorKind
  | rule
  | dataType
  | deprecation
  | federation
  deriving DecidableEq, Repr

def ErrorKind.ofRule (id : String) : ErrorKind :=
  if id == Rule.deprecationsHaveAReason.id then .deprecation
  else if [Rule.undefinedType.id, Rule.invalidEnumValue.id, Rule.suspiciousEnumValue.id].contains id
    then .dataType
  else if [Federation.invalidDirective.id, Federation.composition.id].contains id then .federation
  else .rule

def Diagnostic.errorKind (d : Diagnostic) : ErrorKind := .ofRule d.ruleId

structure FileReport where
  path : String
  /-- What no suppression hides, in the order of the rules. -/
  diagnostics : List Diagnostic
  suppressed : Nat
  deriving DecidableEq, Repr

namespace FileReport

/-- Some diagnostic of the report counts so. -/
def has (r : FileReport) (kind : ErrorKind) : Bool := r.diagnostics.any (·.errorKind == kind)

def errorCount (r : FileReport) : Nat :=
  r.diagnostics.countP (fun d => d.errorKind == .rule || d.errorKind == .dataType) +
    (r.has .deprecation).toNat + (r.has .federation).toNat

def hasErrors (r : FileReport) : Bool := 0 < r.errorCount

end FileReport

structure Summary where
  totalFiles : Nat
  passedFiles : Nat
  filesWithErrors : Nat
  totalErrors : Nat
  percentPassed : String
  percentWithErrors : String
  /-- How often each rule spoke, in the order of the rule identifiers. -/
  errorTypes : List (String × Nat)
  deriving DecidableEq, Repr

structure RunReport where
  files : List FileReport
  deriving DecidableEq, Repr

namespace RunReport

variable (r : RunReport)

def push (f : FileReport) : RunReport := ⟨r.files ++ [f]⟩

def diagnostics : List Diagnostic := r.files.flatMap (·.diagnostics)

def totalFiles : Nat := r.files.length

def filesWithErrors : Nat := r.files.countP (·.hasErrors)

def passedFiles : Nat := r.totalFiles - r.filesWithErrors

/-- A count of each file, added up. -/
def total (count : FileReport → Nat) : Nat := r.files.foldr (count · + ·) 0

def totalErrors : Nat := r.total (·.errorCount)

def totalSuppressed : Nat := r.total (·.suppressed)

def isSuccess : Bool := r.totalErrors == 0

def percentPassed : String := formatPercentage (percentage r.passedFiles r.totalFiles)

def percentWithErrors : String := formatPercentage (percentage r.filesWithErrors r.totalFiles)

def errorTypes : List (String × Nat) :=
  let ids := r.diagnostics.map (·.ruleId)
  (Text.sorted ids.eraseDups).map fun id => (id, ids.count id)

def summary : Summary where
  totalFiles := r.totalFiles
  passedFiles := r.passedFiles
  filesWithErrors := r.filesWithErrors
  totalErrors := r.totalErrors
  percentPassed := r.percentPassed
  percentWithErrors := r.percentWithErrors
  errorTypes := r.errorTypes

def renderErrorTypes : String :=
  "Error type summary:\n" ++
    String.join (r.errorTypes.map fun (id, count) => "  " ++ id ++ ": " ++ toString count ++ "\n")

def renderDiagnostics : String := String.join (r.diagnostics.map fun d => d.render ++ "\n")

def allPassedText : String :=
  "All " ++ toString r.totalFiles ++ " schema file(s) passed linting successfully!"

def renderTotals : String :=
  "passedFiles: " ++ toString r.passedFiles ++ ", totalFiles: " ++ toString r.totalFiles ++
    ", percentPassed: " ++ r.percentPassed ++ "\n" ++
    if r.isSuccess then r.allPassedText ++ "\n"
    else
      "filesWithAtLeastOneError: " ++ toString r.filesWithErrors ++
        ", percentageFilesWithErrors: " ++ r.percentWithErrors ++ "\n" ++
        "totalErrors: " ++ toString r.totalErrors ++ "\n"

/-- The whole report as a text. -/
def render : String := r.renderDiagnostics ++ r.renderErrorTypes ++ r.renderTotals

end RunReport

end SchemaLint
