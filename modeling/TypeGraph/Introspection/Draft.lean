import TypeGraph.Json.Writer
import TypeGraph.Schema.Standard

/-! Introspection data: the types that it lists, before their references are looked up. -/

namespace TypeGraph.Introspection

inductive Fault where
  /-- Something is not there, is no list or has no text, where the data has to have one. -/
  | absent (what : String)
  /-- The data lacks a part or contradicts itself. -/
  | invalid (what : String)
  | illegalName (text : String)
  | illegalDefault
  | endlessDefault (type : Name)
  deriving DecidableEq

namespace Fault

def message : Fault → String
  | absent what => "The introspection data has no " ++ what ++ "."
  | invalid what => "The introspection data has an invalid " ++ what ++ "."
  | illegalName text => "The text \"" ++ text ++ "\" is no name."
  | illegalDefault => "A default value is not written as a literal."
  | endlessDefault t => "A default value of the type '" ++ t.text ++ "' contains itself."

end Fault

abbrev Part := Option Json

namespace Part

def member (key : String) : Part → Except Fault Part
  | none | some .null => throw (.absent key)
  | some j => pure (j.member? key)

def isNothing : Part → Bool
  | none => true
  | some j => j.isEmptyValue

def isNull : Part → Bool
  | none | some .null => true
  | _ => false

/-- The items of a list, or the characters of a text. -/
def items (what : String) : Part → Except Fault (List Json)
  | some (.array js) => pure js
  | some (.string t) => pure (t.map fun g => .string [g])
  | _ => throw (.absent what)

def list (what : String) : Part → Except Fault (List Json)
  | some (.array js) => pure js
  | _ => throw (.absent what)

def present (what : String) (p : Part) : Except Fault Unit :=
  if p.isNothing then throw (.invalid what) else pure ()

def key (what : String) : Part → Except Fault LooseText
  | none => pure (LooseText.ofString "undefined")
  | some j =>
    match j.plainText? with
    | some t => pure t
    | none => throw (.absent what)

end Part

def nameOf (t : LooseText) : Except Fault Name :=
  match t.toString?.bind Name.ofString? with
  | some n => pure n
  | none => throw (.illegalName t.toText)

def typeName : Part → Except Fault Name
  | some (.string t) => nameOf t
  | _ => throw (.invalid "name")

def enumValueName (t : LooseText) : Except Fault Name := do
  let n ← nameOf t
  if ["true", "false", "null"].contains n.text then throw (.illegalName n.text) else return n

inductive Draft where
  | standard (definition : Definition)
  | scalar
  | object (source : Json)
  | interface (source : Json)
  | union (members : Part)
  | enum (values : List Name)
  | input (fields : Part) (oneOf : Bool)

namespace Draft

def isObject : Draft → Bool
  | standard (.object _) | object _ => true
  | _ => false

def isInterface : Draft → Bool
  | standard (.interface _) | interface _ => true
  | _ => false

def isInput : Draft → Bool
  | standard .scalar | standard .enum | standard (.input _) | scalar | enum _ | input _ _ => true
  | _ => false

def isOutput : Draft → Bool
  | standard (.input _) | input _ _ => false
  | _ => true

def ofScalar (j : Json) : Except Fault (Name × Draft) := do
  let n ← typeName (j.member? "name")
  match j.member? "specifiedByURL" with
  | none | some .null | some (.string _) => return (n, scalar)
  | _ => throw (.invalid "specifiedByURL")

def ofUnion (j : Json) : Except Fault (Name × Draft) := do
  let members := j.member? "possibleTypes"
  Part.present "possibleTypes" members
  return (← typeName (j.member? "name"), union members)

def ofEnum (j : Json) : Except Fault (Name × Draft) := do
  let values := j.member? "enumValues"
  Part.present "enumValues" values
  let keys ← (← Part.items "enumValues" values).mapM fun v => do
    Part.key "name" (← Part.member "name" (some v))
  let n ← typeName (j.member? "name")
  return (n, enum (← keys.mapM enumValueName))

def ofInput (j : Json) : Except Fault (Name × Draft) := do
  let fields := j.member? "inputFields"
  Part.present "inputFields" fields
  return (← typeName (j.member? "name"), input fields (!Part.isNothing (j.member? "isOneOf")))

def ofJson (j : Json) : Except Fault (Name × Draft) := do
  if Part.isNull (← Part.member "name" (some j)) then throw (.invalid "type")
  else match j.member? "kind" with
    | some (.string kind) =>
      match kind.toText with
      | "SCALAR" => ofScalar j
      | "OBJECT" => return (← typeName (j.member? "name"), object j)
      | "INTERFACE" => return (← typeName (j.member? "name"), interface j)
      | "UNION" => ofUnion j
      | "ENUM" => ofEnum j
      | "INPUT_OBJECT" => ofInput j
      | _ => throw (.invalid "kind")
    | _ => throw (.invalid "kind")

def standardize (n : Name) (d : Draft) : Draft :=
  match Schema.standardTypes.get? n with
  | some definition => standard definition
  | none => d

end Draft

/-- The types that a schema lists; a repeated name keeps its place and means the last type. -/
def drafts (schema : Json) : Except Fault (Table Name Draft) := do
  let listed ← (← Part.items "types" (schema.member? "types")).mapM Draft.ofJson
  return (Table.ofList listed).mapWithKey Draft.standardize

end TypeGraph.Introspection
