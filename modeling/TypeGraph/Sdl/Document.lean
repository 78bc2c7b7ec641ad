import TypeGraph.Schema
import TypeGraph.Schema.Literal

/-! Schema documents: definitions and extensions as they are written. -/

namespace TypeGraph.Sdl

structure Application where
  name : Name
  args : Arguments

structure InputValue where
  name : Name
  type : TypeExpr
  default : Option Literal
  directives : List Application

structure FieldDefinition where
  name : Name
  args : List InputValue
  type : TypeExpr
  directives : List Application

structure EnumValue where
  name : Name
  directives : List Application

inductive TypeBody where
  | scalar
  | object (interfaces : List Name) (fields : List FieldDefinition)
  | interface (interfaces : List Name) (fields : List FieldDefinition)
  | union (members : List Name)
  | enum (values : List EnumValue)
  | input (fields : List InputValue)

inductive TypeKind where
  | scalar
  | object
  | interface
  | union
  | enum
  | input
  deriving DecidableEq

namespace TypeBody

def kind : TypeBody → TypeKind
  | scalar => .scalar
  | object _ _ => .object
  | interface _ _ => .interface
  | union _ => .union
  | enum _ => .enum
  | input _ => .input

def isEmpty : TypeBody → Bool
  | scalar => true
  | object interfaces fields | interface interfaces fields =>
    interfaces.isEmpty && fields.isEmpty
  | union members => members.isEmpty
  | enum values => values.isEmpty
  | input fields => fields.isEmpty

def outputFields : TypeBody → List FieldDefinition
  | object _ fields | interface _ fields => fields
  | _ => []

def inputFields : TypeBody → List InputValue
  | input fields => fields
  | _ => []

def enumValues : TypeBody → List EnumValue
  | enum values => values
  | _ => []

def relatives : TypeBody → List Name
  | object interfaces _ | interface interfaces _ => interfaces
  | union members => members
  | _ => []

def fieldNames : TypeBody → List Name
  | input fields => fields.map InputValue.name
  | body => body.outputFields.map FieldDefinition.name

end TypeBody

structure TypeItem where
  name : Name
  directives : List Application
  body : TypeBody

structure SchemaItem where
  directives : List Application
  roots : List (Operation × Name)

/-- The places where a directive may stand. A directive may be defined for directive
definitions, but no such definition has room for one. -/
inductive Location where
  | operation (kind : Operation)
  | field
  | fragmentDefinition
  | fragmentSpread
  | inlineFragment
  | variableDefinition
  | schema
  | directiveDefinition
  | type (kind : TypeKind)
  | fieldDefinition
  | argumentDefinition
  | enumValue
  | inputFieldDefinition
  deriving DecidableEq

namespace Location

def ofName? (n : Name) : Option Location :=
  match n.text with
  | "QUERY" => some (operation .query)
  | "MUTATION" => some (operation .mutation)
  | "SUBSCRIPTION" => some (operation .subscription)
  | "FIELD" => some field
  | "FRAGMENT_DEFINITION" => some fragmentDefinition
  | "FRAGMENT_SPREAD" => some fragmentSpread
  | "INLINE_FRAGMENT" => some inlineFragment
  | "VARIABLE_DEFINITION" => some variableDefinition
  | "SCHEMA" => some schema
  | "DIRECTIVE_DEFINITION" => some directiveDefinition
  | "SCALAR" => some (type .scalar)
  | "OBJECT" => some (type .object)
  | "FIELD_DEFINITION" => some fieldDefinition
  | "ARGUMENT_DEFINITION" => some argumentDefinition
  | "INTERFACE" => some (type .interface)
  | "UNION" => some (type .union)
  | "ENUM" => some (type .enum)
  | "ENUM_VALUE" => some enumValue
  | "INPUT_OBJECT" => some (type .input)
  | "INPUT_FIELD_DEFINITION" => some inputFieldDefinition
  | _ => none

end Location

structure DirectiveItem where
  name : Name
  args : List InputValue
  repeatable : Bool
  locations : List Location

structure Site where
  location : Location
  directives : List Application

/-- What an executable definition mentions; nothing else of it is kept. -/
structure Mentions where
  sites : List Site := []
  types : List Name := []
  arguments : List Arguments := []
  defaults : List Literal := []
  deriving Inhabited

namespace Mentions

instance : Append Mentions :=
  ⟨fun a b => ⟨a.sites ++ b.sites, a.types ++ b.types, a.arguments ++ b.arguments,
    a.defaults ++ b.defaults⟩⟩

def join (ms : List Mentions) : Mentions := ms.foldr (· ++ ·) {}

end Mentions

inductive Item where
  | schema (s : SchemaItem)
  | extendSchema (s : SchemaItem)
  | type (t : TypeItem)
  | extendType (t : TypeItem)
  | directive (d : DirectiveItem)
  | executable (m : Mentions)

abbrev Document := List Item

namespace Document

variable (doc : Document)

def schemas : List SchemaItem := doc.filterMap fun
  | .schema s => some s
  | _ => none

def schemaExtensions : List SchemaItem := doc.filterMap fun
  | .extendSchema s => some s
  | _ => none

def types : List TypeItem := doc.filterMap fun
  | .type t => some t
  | _ => none

def extensions : List TypeItem := doc.filterMap fun
  | .extendType t => some t
  | _ => none

def typeItems : List TypeItem := doc.filterMap fun
  | .type t | .extendType t => some t
  | _ => none

def directives : List DirectiveItem := doc.filterMap fun
  | .directive d => some d
  | _ => none

def mentions : Mentions := Mentions.join (doc.filterMap fun
  | .executable m => some m
  | _ => none)

end Document
end TypeGraph.Sdl
