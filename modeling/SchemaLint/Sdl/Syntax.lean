/-!
# Schema definitions

The parts of a schema document that the rules look at. Every name knows the byte
offset at which it stands. Operations, fragments, directive definitions and the
schema definition are read but not kept.
-/

namespace SchemaLint.Sdl

structure Name where
  text : String
  offset : Nat
  deriving DecidableEq, Repr

/-- The value of an argument. Only strings are looked into. -/
inductive Value
  | string (text : String)
  | other
  deriving DecidableEq, Repr

structure Argument where
  name : String
  value : Value
  deriving DecidableEq, Repr

structure Directive where
  name : String
  arguments : List Argument
  /-- Where its `@` stands. -/
  offset : Nat
  deriving DecidableEq, Repr

inductive TypeRef
  | named (name : String)
  | list (item : TypeRef)
  | nonNull (type : TypeRef)
  deriving DecidableEq, Repr

/-- The name inside all lists and marks. -/
def TypeRef.base : TypeRef → String
  | .named name => name
  | .list item => item.base
  | .nonNull type => type.base

/-- The reference as it is written. -/
def TypeRef.render : TypeRef → String
  | .named name => name
  | .list item => "[" ++ item.render ++ "]"
  | .nonNull type => type.render ++ "!"

/-- An argument of a field, or a field of an input type. -/
structure InputValue where
  description : Option String
  name : Name
  type : TypeRef
  directives : List Directive
  deriving DecidableEq, Repr

structure Field where
  description : Option String
  name : Name
  arguments : List InputValue
  type : TypeRef
  directives : List Directive
  deriving DecidableEq, Repr

structure EnumValue where
  description : Option String
  name : Name
  directives : List Directive
  deriving DecidableEq, Repr

/-- The six kinds of types. -/
inductive TypeKind
  | object
  | interface
  | input
  | enum
  | union
  | scalar
  deriving DecidableEq, Repr

def TypeKind.keyword : TypeKind → String
  | .object => "type"
  | .interface => "interface"
  | .input => "input"
  | .enum => "enum"
  | .union => "union"
  | .scalar => "scalar"

def TypeKind.all : List TypeKind := [.object, .interface, .input, .enum, .union, .scalar]

def TypeKind.ofKeyword? (word : String) : Option TypeKind :=
  TypeKind.all.find? (·.keyword == word)

/-- What kind of type is defined, with its members. -/
inductive Body
  | object (fields : List Field)
  | interface (fields : List Field)
  | input (fields : List InputValue)
  | enum (values : List EnumValue)
  | union (members : List String)
  | scalar
  deriving DecidableEq, Repr

namespace Body

def kind : Body → TypeKind
  | .object _ => .object
  | .interface _ => .interface
  | .input _ => .input
  | .enum _ => .enum
  | .union _ => .union
  | .scalar => .scalar

/-- The fields of an object or interface type. -/
def fields : Body → List Field
  | .object fs => fs
  | .interface fs => fs
  | _ => []

def inputFields : Body → List InputValue
  | .input fs => fs
  | _ => []

def enumValues : Body → List EnumValue
  | .enum vs => vs
  | _ => []

def unionMembers : Body → List String
  | .union ms => ms
  | _ => []

end Body

/-- The definition of a type, or an extension of one. -/
structure Definition where
  isExtension : Bool
  description : Option String
  name : Name
  directives : List Directive
  body : Body
  /-- Where it starts, its description included. -/
  offset : Nat
  deriving DecidableEq, Repr

/-- The kind of type that is defined or extended. -/
def Definition.kind (d : Definition) : TypeKind := d.body.kind

/-- Defines a type of that kind, and does not only extend one. -/
def Definition.defines (kind : TypeKind) (d : Definition) : Bool :=
  !d.isExtension && d.kind == kind

/-- The first argument of that name. -/
def Directive.argument? (d : Directive) (name : String) : Option Value :=
  (d.arguments.find? (·.name == name)).map (·.value)

/-- The first argument of that name, if its value is a string. -/
def Directive.stringArgument? (d : Directive) (name : String) : Option String :=
  match d.argument? name with
  | some (.string text) => some text
  | _ => none

end SchemaLint.Sdl
