import SchemaLint.Catalogue
import SchemaLint.Config
import SchemaLint.Event
import SchemaLint.Report

/-!
# Linting a text

The diagnostics of a document are its syntax errors, then what each enabled rule
reports, in the order of the catalogue. Suppressions then take some of them out.
-/

namespace SchemaLint

def Settings.rules (s : Settings) : List Rule := catalogue.filter (s.enables ·.group)

/-- All diagnostics, suppressed ones included. -/
def diagnose (settings : Settings) (doc : SchemaDocument) : List Diagnostic :=
  doc.syntaxDiagnostics ++ settings.rules.flatMap (·.check doc)

namespace Config

variable (config : Config)

def hides (d : Diagnostic) : Bool := config.suppresses d.coordinates

/-- The report on a file for which `ds` were produced. -/
def retain (path : String) (ds : List Diagnostic) : FileReport :=
  ⟨path, ds.filter (!config.hides ·), ds.countP config.hides⟩

def suppressionEvents (ds : List Diagnostic) : List Event :=
  ds.filterMap fun d =>
    (config.suppression? d.coordinates).map fun s =>
      .diagnosticSuppressed d.file d.line d.ruleId d.suppressionValue s.reason

end Config

def syntaxEvents (doc : SchemaDocument) : List Event :=
  doc.syntaxErrors.map fun e => .syntaxError doc.path e.line e.message

/-- One event for each enabled rule that reports something. -/
def ruleEvents (settings : Settings) (doc : SchemaDocument) : List Event :=
  settings.rules.filterMap fun rule =>
    let count := (rule.check doc).length
    if count = 0 then none else some (.ruleReported doc.path rule.id count)

/-- The report on a schema held in memory. -/
def lintSource (path source : String) (config : Config) : FileReport :=
  config.retain path (diagnose config.settings (.parse path source))

/-- What linting a schema tells along the way. -/
def lintEvents (path source : String) (config : Config) : List Event :=
  let doc := SchemaDocument.parse path source
  syntaxEvents doc ++ ruleEvents config.settings doc ++
    config.suppressionEvents (diagnose config.settings doc)

end SchemaLint
