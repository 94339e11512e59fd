import SchemaLint.Text.Blank

/-!
# Drafts of schemas

A schema put together from its parts and written out as text: one definition
after the other with an empty line between them. Types and directives are given
as they are to be written, and so may be anything.
-/

namespace SchemaLint.Sdl

structure InputDraft where
  name : String
  type : String
  description : Option String
  deriving DecidableEq, Repr

structure FieldDraft where
  name : String
  type : String
  description : Option String
  arguments : List InputDraft
  directives : List String
  deriving DecidableEq, Repr

structure EnumValueDraft where
  name : String
  description : Option String
  directives : List String
  deriving DecidableEq, Repr

/-- The definitions that hold fields. -/
inductive FieldedForm
  | object
  | interface
  | extension
  deriving DecidableEq, Repr

def FieldedForm.keyword : FieldedForm → String
  | .object => "type"
  | .interface => "interface"
  | .extension => "extend type"

inductive DefinitionDraft
  | fielded (form : FieldedForm) (name : String) (description : Option String)
      (directives : List String) (fields : List FieldDraft)
  | enum (name : String) (description : Option String) (values : List EnumValueDraft)
  | input (name : String) (description : Option String) (fields : List InputDraft)
  | union (name : String) (description : Option String) (members : List String)
  | scalar (name : String) (description : Option String)
  /-- Text that is taken over without the blanks around it. -/
  | raw (text : String)
  deriving DecidableEq, Repr

/-- A description on a line of its own. -/
def renderDescription (indent : String) : Option String → String
  | some text => indent ++ "\"\"\"" ++ text ++ "\"\"\"\n"
  | none => ""

def renderDirectives (directives : List String) : String :=
  String.join (directives.map (" " ++ ·))

/-- Members on lines of their own between braces. -/
def renderBlock (members : List String) : String :=
  " \x7b\n" ++ String.join (members.map (· ++ "\n")) ++ "\x7d"

/-- An argument, with its description on the same line. -/
def InputDraft.renderInline (d : InputDraft) : String :=
  (match d.description with
    | some text => "\"\"\"" ++ text ++ "\"\"\" "
    | none => "") ++ d.name ++ ": " ++ d.type

def InputDraft.render (d : InputDraft) : String :=
  renderDescription "  " d.description ++ "  " ++ d.name ++ ": " ++ d.type

def FieldDraft.render (d : FieldDraft) : String :=
  let arguments :=
    if d.arguments.isEmpty then ""
    else "(" ++ ", ".intercalate (d.arguments.map (·.renderInline)) ++ ")"
  renderDescription "  " d.description ++ "  " ++ d.name ++ arguments ++ ": " ++ d.type ++
    renderDirectives d.directives

def EnumValueDraft.render (d : EnumValueDraft) : String :=
  renderDescription "  " d.description ++ "  " ++ d.name ++ renderDirectives d.directives

/-- An extension never shows a description. -/
def DefinitionDraft.render : DefinitionDraft → String
  | .fielded form name description directives fields =>
      (if form = .extension then "" else renderDescription "" description) ++
        form.keyword ++ " " ++ name ++ renderDirectives directives ++
        renderBlock (fields.map (·.render))
  | .enum name description values =>
      renderDescription "" description ++ "enum " ++ name ++
        renderBlock (values.map (·.render))
  | .input name description fields =>
      renderDescription "" description ++ "input " ++ name ++
        renderBlock (fields.map (·.render))
  | .union name description members =>
      renderDescription "" description ++ "union " ++ name ++ " = " ++ " | ".intercalate members
  | .scalar name description => renderDescription "" description ++ "scalar " ++ name
  | .raw text => String.ofList (Text.trim text.toList)

structure SchemaDraft where
  definitions : List DefinitionDraft
  deriving DecidableEq, Repr

namespace SchemaDraft

def render (s : SchemaDraft) : String :=
  "\n\n".intercalate (s.definitions.map (·.render)) ++ "\n"

/-- A small schema that satisfies every rule. -/
def baseline : SchemaDraft where
  definitions :=
    [.fielded .object "PageInfo" (some "Relay pagination details") []
        [⟨"hasNextPage", "Boolean", some "Whether another page follows", [], []⟩],
      .fielded .object "Query" (some "The root query") []
        [⟨"page", "PageInfo", some "The current page", [], []⟩]]

def add (s : SchemaDraft) (d : DefinitionDraft) : SchemaDraft := ⟨s.definitions ++ [d]⟩

end SchemaDraft

end SchemaLint.Sdl
