import SchemaLint.Diagnostic
import SchemaLint.Sdl.Parser.Document
import SchemaLint.Source.Breaks
import SchemaLint.Source.CommentLines
import SchemaLint.Source.LineIndex
import SchemaLint.Source.Locate

/-!
# Schema documents

A schema file as the rules see it: its text, the definitions in it and what is
wrong with its syntax. Comment lines are blanked out before reading, so every
position is one of the text itself. Reading always gives a document, with as
many definitions as could be made out.
-/

namespace SchemaLint

open Sdl Source

structure SyntaxError where
  message : String
  line : Nat
  deriving DecidableEq, Repr

/-- Faults of a text as a report shows them. -/
def syntaxErrors (text : String) (faults : List LocatedFault) : List SyntaxError :=
  let starts := breakStarts text
  faults.map fun f => ⟨f.fault.report, starts.countP (· ≤ f.offset)⟩

theorem syntaxErrors_eq_map (text : String) (faults : List LocatedFault) :
    syntaxErrors text faults =
      faults.map fun f => ⟨f.fault.report, breakLineOfOffset text f.offset⟩ := rfl

structure SchemaDocument where
  path : String
  source : String
  /-- Where the lines of the source start. -/
  lineIndex : LineIndex
  lineIndex_eq : lineIndex = .ofText source
  definitions : List Definition
  syntaxErrors : List SyntaxError

/-- What a rule has to say, before it is put into a report. -/
structure Finding where
  line : Nat
  text : String
  value : Option String
  deriving DecidableEq, Repr

def syntaxErrorRule : String := "graphql-syntax-error"

namespace SchemaDocument

def parse (path source : String) : SchemaDocument :=
  let masked := maskCommentLines source
  let reading := read masked
  ⟨path, source, .ofText source, rfl, reading.definitions,
    SchemaLint.syntaxErrors masked reading.faults⟩

variable (doc : SchemaDocument)

def lineCount : Nat := doc.lineIndex.lineCount

def lineOfOffset (offset : Nat) : Nat := doc.lineIndex.lineOfOffset offset

/-- A finding at the line of a name. -/
def finding (name : Name) (text : String) : Finding := ⟨doc.lineOfOffset name.offset, text, none⟩

def diagnostic (rule : String) (f : Finding) : Diagnostic :=
  .make doc.path f.line rule f.text (lineContent doc.source f.line) f.value

/-- What a rule finds, with the lines it is about. -/
def diagnostics (rule : String) (fs : List Finding) : List Diagnostic :=
  let lines := Text.lines doc.source.toList
  fs.map fun f => .make doc.path f.line rule f.text (contentOf lines f.line) f.value

theorem diagnostics_eq_map (rule : String) (fs : List Finding) :
    doc.diagnostics rule fs = fs.map (doc.diagnostic rule) := rfl

def syntaxDiagnostics : List Diagnostic :=
  doc.diagnostics syntaxErrorRule (doc.syntaxErrors.map fun e => ⟨e.line, e.message, none⟩)

/-- Definitions of types of one kind. -/
def typesOf (kind : TypeKind) : List Definition := doc.definitions.filter (·.defines kind)

/-- Extensions of types of one kind. -/
def extensionsOf (kind : TypeKind) : List Definition :=
  doc.definitions.filter fun d => d.isExtension && d.kind == kind

/-- Definitions and extensions of object types. -/
def objects : List Definition := doc.definitions.filter (·.kind == .object)

def definedTypeNames : List String := doc.definitions.map (·.name.text)

end SchemaDocument

end SchemaLint
