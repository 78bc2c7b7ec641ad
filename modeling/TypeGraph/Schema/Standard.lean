import TypeGraph.Schema

/-! The types that every schema has: the specified scalars, and the types in which a schema
describes itself. -/

namespace TypeGraph.Schema

def specifiedScalars : List String := ["String", "Int", "Float", "Boolean", "ID"]

def introspectionTypes : List String :=
  ["__Schema", "__Directive", "__DirectiveLocation", "__Type", "__Field", "__InputValue",
    "__EnumValue", "__TypeKind"]

def standardNames : List String := specifiedScalars ++ introspectionTypes

def isStandard (n : Name) : Bool := standardNames.contains n.text

def directiveLocations : List String :=
  ["QUERY", "MUTATION", "SUBSCRIPTION", "FIELD", "FRAGMENT_DEFINITION", "FRAGMENT_SPREAD",
    "INLINE_FRAGMENT", "VARIABLE_DEFINITION", "SCHEMA", "SCALAR", "OBJECT", "FIELD_DEFINITION",
    "ARGUMENT_DEFINITION", "INTERFACE", "UNION", "ENUM", "ENUM_VALUE", "INPUT_OBJECT",
    "INPUT_FIELD_DEFINITION", "DIRECTIVE_DEFINITION"]

def typeKinds : List String :=
  ["SCALAR", "OBJECT", "INTERFACE", "UNION", "ENUM", "INPUT_OBJECT", "LIST", "NON_NULL"]

namespace Standard

def ident (text : String) (h : IsName text.toList := by decide) : Name := ⟨text, h⟩

def string : TypeExpr := .named (ident "String")

def boolean : TypeExpr := .named (ident "Boolean")

def typeType : TypeExpr := .named (ident "__Type")

def full (t : TypeExpr) : TypeExpr := .nonNull (.list (.nonNull t))

def maybe (t : TypeExpr) : TypeExpr := .list (.nonNull t)

def plain (name : Name) (type : TypeExpr) : Name × OutputField := (name, ⟨type, Table.empty⟩)

def filtered (name : Name) (type : TypeExpr) : Name × OutputField :=
  (name, ⟨type, Table.ofList [(ident "includeDeprecated", boolean)]⟩)

def object (name : Name) (fields : List (Name × OutputField)) : Name × Definition :=
  (name, .object (Table.ofList fields))

def inputValue : TypeExpr := .named (ident "__InputValue")

def name : Name × OutputField := plain (ident "name") (.nonNull string)

def description : Name × OutputField := plain (ident "description") string

def isDeprecated : Name × OutputField := plain (ident "isDeprecated") (.nonNull boolean)

def deprecationReason : Name × OutputField := plain (ident "deprecationReason") string

def args : Name × OutputField := filtered (ident "args") (full inputValue)

def schemaType : Name × Definition :=
  object (ident "__Schema") [
    description,
    plain (ident "types") (full typeType),
    plain (ident "queryType") (.nonNull typeType),
    plain (ident "mutationType") typeType,
    plain (ident "subscriptionType") typeType,
    plain (ident "directives") (full (.named (ident "__Directive")))]

def directiveType : Name × Definition :=
  object (ident "__Directive") [
    name, description,
    plain (ident "isRepeatable") (.nonNull boolean),
    plain (ident "locations") (full (.named (ident "__DirectiveLocation"))),
    args]

def typeTypeDefinition : Name × Definition :=
  object (ident "__Type") [
    plain (ident "kind") (.nonNull (.named (ident "__TypeKind"))),
    plain (ident "name") string, description,
    plain (ident "specifiedByURL") string,
    filtered (ident "fields") (maybe (.named (ident "__Field"))),
    plain (ident "interfaces") (maybe typeType),
    plain (ident "possibleTypes") (maybe typeType),
    filtered (ident "enumValues") (maybe (.named (ident "__EnumValue"))),
    filtered (ident "inputFields") (maybe inputValue),
    plain (ident "ofType") typeType,
    plain (ident "isOneOf") boolean]

def fieldType : Name × Definition :=
  object (ident "__Field") [
    name, description, args, plain (ident "type") (.nonNull typeType), isDeprecated,
    deprecationReason]

def inputValueType : Name × Definition :=
  object (ident "__InputValue") [
    name, description, plain (ident "type") (.nonNull typeType),
    plain (ident "defaultValue") string, isDeprecated, deprecationReason]

def enumValueType : Name × Definition :=
  object (ident "__EnumValue") [name, description, isDeprecated, deprecationReason]

end Standard

open Standard in
def standardTypes : Table Name Definition :=
  Table.ofList [
    (ident "String", .scalar), (ident "Int", .scalar), (ident "Float", .scalar),
    (ident "Boolean", .scalar), (ident "ID", .scalar), schemaType, directiveType,
    (ident "__DirectiveLocation", .enum), typeTypeDefinition, fieldType, inputValueType,
    enumValueType, (ident "__TypeKind", .enum)]

end TypeGraph.Schema
