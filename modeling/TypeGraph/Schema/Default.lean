import TypeGraph.Schema.Literal
import TypeGraph.Schema.Standard

/-! Default values: which literals have a value of a type.

An object literal is completed with the defaults of the input type's own fields, so the fields
of that type are built first. A type that needs itself for one of its defaults has none. -/

namespace TypeGraph

inductive DefaultFault (φ : Type) where
  | outputType (name : Name)
  | endless (name : Name)
  | source (fault : φ)
  deriving DecidableEq

inductive Leaf where
  | int
  | float
  | string
  | boolean
  | id
  | enum (values : List String)
  | custom
  deriving DecidableEq

namespace Leaf

def intLimit : Int := 2147483648

def accepts : Leaf → Literal → Bool
  | int, .int n => -intLimit ≤ n && n < intLimit
  | float, .int _ | float, .float => true
  | string, .string => true
  | boolean, .boolean => true
  | id, .string | id, .int _ => true
  | enum values, .enum n => values.contains n.text
  | custom, _ => true
  | _, _ => false

def standard? (n : Name) : Option Leaf :=
  match n.text with
  | "Int" => some int
  | "Float" => some float
  | "String" => some string
  | "Boolean" => some boolean
  | "ID" => some id
  | "__DirectiveLocation" => some (enum Schema.directiveLocations)
  | "__TypeKind" => some (enum Schema.typeKinds)
  | _ => none

end Leaf

inductive Shape where
  | leaf (leaf : Leaf)
  | input (oneOf : Bool)
  | output
  deriving DecidableEq

inductive Presence where
  | null
  | value
  deriving DecidableEq

structure InputField where
  name : Name
  type : TypeExpr
  default : Option Presence
  deriving DecidableEq

namespace Default

abbrev Built := Table Name (List InputField)

abbrev Build (φ : Type) := StateT Built (Except (DefaultFault φ))

/-- A literal is a function of its type: the value that it has there, if any. -/
abbrev Coercion (φ : Type) := TypeExpr → Build φ (Option Presence)

variable {φ : Type}

def coerceLeaf (shape : Name → Shape) (l : Literal) (t : TypeExpr) : Build φ (Option Presence) :=
  match shape t.name with
  | .leaf leaf => pure (if leaf.accepts l then some .value else none)
  | .input _ => pure none
  | .output => throw (.outputType t.name)

/-- Completes the fields that an object literal gives: `none` as soon as one has no value. -/
def coerceFields (given : List (Name × Option (Coercion φ))) :
    List InputField → Build φ (Option (List Presence))
  | [] => pure (some [])
  | f :: rest => do
    let value ← match (Literal.find? f.name given).bind id with
      | some coerce => match ← coerce f.type with
        | some p => pure (some [p])
        | none => pure none
      | none => match f.default with
        | some p => pure (some [p])
        | none => pure (if f.type.isNonNull then none else some [])
    match value with
    | none => pure none
    | some ps => return (← coerceFields given rest).map (ps ++ ·)

def coerceObject (shape : Name → Shape) (fieldsOf : Name → Build φ (List InputField))
    (given : List (Name × Option (Coercion φ))) (n : Name) : Build φ (Option Presence) := do
  match shape n with
  | .input oneOf =>
    match ← coerceFields given (← fieldsOf n) with
    | none => pure none
    | some values => pure (if oneOf && values != [.value] then none else some .value)
  | _ => coerceLeaf shape (.object []) (.named n)

def coerceItems (item : TypeExpr) : List (Option (Coercion φ)) → Build φ Bool
  | [] => pure true
  | none :: rest => if item.isNonNull then pure false else coerceItems item rest
  | some coerce :: rest => do
    match ← coerce item with
    | none => pure false
    | some _ => coerceItems item rest

mutual

/-- The value of a literal at a type. A single value stands for a list of one. -/
def coerce (shape : Name → Shape) (fieldsOf : Name → Build φ (List InputField)) :
    Literal → Coercion φ
  | .variable => fun _ => pure none
  | .null => fun t => pure (if t.isNonNull then none else some .null)
  | .list items =>
    let given := coercions shape fieldsOf items
    fun t => do
      match t.nullable with
      | .list item => return if ← coerceItems item given then some .value else none
      | _ => coerceLeaf shape (.list items) t
  | .object fields =>
    let given := fieldCoercions shape fieldsOf fields
    fun t => coerceObject shape fieldsOf given t.name
  | l => coerceLeaf shape l

def coercions (shape : Name → Shape) (fieldsOf : Name → Build φ (List InputField)) :
    List Literal → List (Option (Coercion φ))
  | [] => []
  | .variable :: rest => none :: coercions shape fieldsOf rest
  | l :: rest => some (coerce shape fieldsOf l) :: coercions shape fieldsOf rest

def fieldCoercions (shape : Name → Shape) (fieldsOf : Name → Build φ (List InputField)) :
    Arguments → List (Name × Option (Coercion φ))
  | [] => []
  | (n, .variable) :: rest => (n, none) :: fieldCoercions shape fieldsOf rest
  | (n, l) :: rest => (n, some (coerce shape fieldsOf l)) :: fieldCoercions shape fieldsOf rest

end

/-- Builds the fields of an input type, given the values of literals. -/
abbrev Recipe (φ : Type) := (Literal → Coercion φ) → Build φ (List InputField)

/-- The fields of an input type, built once. As many levels as there are input types are
enough, unless a type needs itself. -/
def fieldsOf (shape : Name → Shape) (recipe : Name → Recipe φ) :
    Nat → Name → Build φ (List InputField)
  | 0, n => throw (.endless n)
  | fuel + 1, n => do
    match (← get).get? n with
    | some fields => pure fields
    | none =>
      let fields ← recipe n (coerce shape (fieldsOf shape recipe fuel))
      modify fun built => built.insert n fields
      pure fields

end Default
end TypeGraph
