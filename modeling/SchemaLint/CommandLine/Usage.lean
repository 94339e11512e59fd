import SchemaLint.CommandLine.Options
import SchemaLint.CommandLine.Styled

/-!
# Texts on the command line

The help, the version, and what is said of a line that makes no sense.
-/

namespace SchemaLint.CommandLine

def programName : String := "graphql-linter"

def versionText : String := programName ++ " 0.1.0\n"

def blank : StyledLine := []

def Flag.styled (f : Flag) : StyledLine := [literal f.longName, plain f.valueLabel]

/-- What may stand on a line, between blanks. -/
def usageOf (parts : List StyledLine) : StyledLine :=
  [⟨.heading, "Usage:"⟩, plain " ", literal programName] ++ parts.flatMap (plain " " :: ·)

def optionsUsage : StyledLine := usageOf [[plain "[OPTIONS]"]]

def usageLine (used : List Flag) : StyledLine :=
  if used.isEmpty then optionsUsage else usageOf (used.map (·.styled))

/-- One of the flags for linting. -/
def anyLintingFlag : StyledLine :=
  [plain ("<" ++ "|".intercalate (Flag.ofLinting.map (·.label)) ++ ">")]

/-- The usage of a flag, beside others if it is not the first one. -/
def usageBeside (f : Flag) (isFirst : Bool) : StyledLine :=
  if isFirst then usageLine [f]
  else if Flag.ofLinting.contains f then usageOf [anyLintingFlag]
  else usageOf [f.styled, anyLintingFlag]

def Flag.summary : Flag → String
  | .targetPath => "Directory or schema file to lint (defaults to the project root)"
  | .configPath =>
      "Path to the YAML configuration (defaults to <project root>/.graphql-linter.yml)"
  | .verbose => "Enable debug logging, including every suppressed diagnostic"
  | .format => "Output format"
  | .help => "Print help"
  | .version => "Print version"

/-- A flag with its letter, as lists show it. -/
def Flag.heading (f : Flag) : StyledLine :=
  (match f with
    | .help => [plain "  ", literal "-h", plain ", "]
    | .version => [plain "  ", literal "-V", plain ", "]
    | _ => [plain "      "]) ++ f.styled

def shortSummary : Flag → String
  | .format => "Output format [default: human] [possible values: human, json]"
  | .help => "Print help (see more with '--help')"
  | f => f.summary

/-- Paragraphs on a flag in the long help. -/
def longDetails : Flag → List (List StyledLine)
  | .format =>
      [[[plain "Output format"]],
        [[plain "Possible values:"],
          [plain "- ", literal "human", plain ": Human-readable output with colors"],
          [plain "- ", literal "json", plain ":  JSON output for tooling"], blank,
          [plain "[default: human]"]]]
  | .help => [[[plain "Print help (see a summary with '-h')"]]]
  | f => [[[plain f.summary]]]

def helpHead : List StyledLine :=
  [[plain "Lint GraphQL schema files"], blank, optionsUsage, blank, [⟨.heading, "Options:"⟩]]

/-- How wide a line shows. -/
def widthOf (l : StyledLine) : Nat := l.foldl (fun n s => n + s.text.length) 0

/-- A line with blanks behind it up to a width. -/
def padded (width : Nat) (l : StyledLine) : StyledLine :=
  l ++ [plain (String.ofList (List.replicate (width - widthOf l) ' '))]

/-- Column of the descriptions in the short help. -/
def summaryColumn : Nat := 27

/-- Paragraphs with an empty line between them, every line of theirs indented. -/
def detailLines (f : Flag) : List StyledLine :=
  let paragraphs := (longDetails f).map fun ls => ls.map (plain "          " :: ·)
  (paragraphs.intersperse [blank]).flatten

def helpLines (isLong : Bool) : List StyledLine :=
  if isLong then
    let parts := Flag.all.map fun f => f.heading :: detailLines f
    helpHead ++ (parts.intersperse [blank]).flatten
  else
    helpHead ++ Flag.all.map fun f => padded summaryColumn f.heading ++ [plain (shortSummary f)]

def helpText (colours isLong : Bool) : String := renderStyled colours (helpLines isLong)

/-- The values that a flag takes, if only some are possible. -/
def possibleValues (f : Flag) : List StyledLine :=
  if f = .format then
    let values : List StyledLine := Format.all.map fun v => [⟨.valid, v.label⟩]
    [[plain "  [possible values: "] ++ (values.intersperse [plain ", "]).flatten ++ [plain "]"]]
  else []

/-- A suggestion, with an empty line before it. -/
def tip (what : String) : Option String → List StyledLine
  | some similar =>
      [blank, [plain "  ", ⟨.valid, "tip:"⟩, plain (" a similar " ++ what ++ " exists: '"),
        ⟨.valid, similar⟩, plain "'"]]
  | none => []

/-- A complaint around the word that it is about. -/
def complaint (before : String) (word : Span) (after : String) : StyledLine :=
  [⟨.error, "error:"⟩, plain (" " ++ before ++ " '"), word, plain ("'" ++ after)]

def ArgumentError.lines : ArgumentError → List StyledLine
  | .unexpectedArgument argument similar used =>
      complaint "unexpected argument" ⟨.invalid, argument⟩ " found" :: tip "argument" similar ++
        [blank, usageLine used]
  | .unexpectedValue value flag isFirst =>
      [complaint "unexpected value" ⟨.invalid, value⟩ " for '" ++
        [literal flag.label, plain "' found; no more were expected"],
        blank, usageBeside flag isFirst]
  | .repeated flag =>
      [complaint "the argument" ⟨.invalid, flag.label⟩ " cannot be used multiple times", blank,
        optionsUsage]
  | .missingValue flag =>
      complaint "a value is required for" ⟨.invalid, flag.label⟩ " but none was supplied" ::
        possibleValues flag
  | .invalidValue value flag similar =>
      (complaint "invalid value" ⟨.invalid, value⟩ " for '" ++ [literal flag.label, plain "'"]) ::
        possibleValues flag ++ tip "value" similar

/-- All that is said of a line that makes no sense. -/
def ArgumentError.message (colours : Bool) (e : ArgumentError) : String :=
  renderStyled colours (e.lines ++
    [blank, [plain "For more information, try '", literal "--help", plain "'."]])

end SchemaLint.CommandLine
