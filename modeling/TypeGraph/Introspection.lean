import TypeGraph.Introspection.Draft
import TypeGraph.Schema.Default
import TypeGraph.Sdl.Parser

/-! Schemas of introspection data: references looked up among the listed types, defaults
worked out, and every name checked. -/

namespace TypeGraph.Introspection

abbrev Build := Default.Build Fault

def lift {α : Type} (result : Except Fault α) : Build α :=
  match result with
  | .ok a => pure a
  | .error e => throw (.source e)

abbrev Filed (α : Type) := LooseText × α

/-- Checks the names under which things are filed; the last thing under a name counts. -/
def named {α : Type} (filed : List (Filed α)) : Except Fault (Table Name α) := do
  return Table.ofList (← filed.mapM fun f => return (← nameOf f.1, f.2))

structure InputType where
  type : TypeExpr
  default : Option Presence

section

variable (types : Table Name Draft)

/-- The type that a reference names. Only its name counts. -/
def findNamed (p : Part) : Except Fault (Name × Draft) := do
  let n ← Part.member "name" p
  Part.present "type reference" n
  match (← Part.key "type reference" n).toString?.bind Name.ofString? with
  | none => throw (.invalid "type reference")
  | some n =>
    match types.get? n with
    | some d => return (n, d)
    | none => throw (.invalid "type reference")

def typeWithin : Nat → Part → Except Fault TypeExpr
  | 0, _ => throw (.invalid "type reference")
  | fuel + 1, p => do
    let kind ← Part.member "kind" p
    let isKind (k : String) : Bool := match kind with
      | some (.string t) => t.toText == k
      | _ => false
    if isKind "LIST" || isKind "NON_NULL" then
      let inner ← Part.member "ofType" p
      Part.present "ofType" inner
      let t ← typeWithin fuel inner
      if isKind "LIST" then return .list t
      else match t.nonNull? with
        | some t => return t
        | none => throw (.invalid "ofType")
    else return .named (← findNamed types p).1

def typeOf (p : Part) : Except Fault TypeExpr :=
  typeWithin types (match p with
    | some j => j.depth
    | none => 1) p

def allows (ok : Draft → Bool) (t : TypeExpr) : Bool := (types.get? t.name).any ok

def shape (n : Name) : Shape :=
  match Leaf.standard? n, types.get? n with
  | some leaf, _ => .leaf leaf
  | none, some (.enum values) => .leaf (.enum (values.map Name.text))
  | none, some .scalar => .leaf .custom
  | none, some (.input _ oneOf) => .input oneOf
  | none, _ => .output

def defaultLiteral? (p : Part) : Except Fault (Option Literal) :=
  match p with
  | none | some .null => pure none
  | some (.string t) =>
    match (LooseText.toChars? t).bind Sdl.parseLiteral? with
    | some l => pure (some l)
    | none => throw .illegalDefault
  | some _ => throw (.invalid "defaultValue")

/-- An argument or input field: its type first, then its default, and the text under which
it is filed last. -/
def inputValue (coerce : Literal → Default.Coercion Fault) (j : Json) :
    Build (Filed InputType) := do
  let n ← lift (Part.member "name" (some j))
  let t ← lift (typeOf types (j.member? "type"))
  if !allows types Draft.isInput t then throw (.source (.invalid "input type"))
  else
    let default ← match ← lift (defaultLiteral? (j.member? "defaultValue")) with
      | some l => coerce l t
      | none => pure none
    return (← lift (Part.key "name" n), ⟨t, default⟩)

def inputValues (coerce : Literal → Default.Coercion Fault) (what : String) (p : Part) :
    Build (List (Filed InputType)) := do
  (← lift (Part.items what p)).mapM (inputValue types coerce)

def recipe (n : Name) : Default.Recipe Fault := fun coerce =>
  match types.get? n with
  | some (.input fields _) => do
    let filed ← inputValues types coerce "inputFields" fields
    return (← lift (named filed)).entries.map fun (n, v) => ⟨n, v.type, v.default⟩
  | _ => pure []

def fieldsOf : Name → Build (List InputField) :=
  Default.fieldsOf (shape types) (recipe types) (types.size + 1)

def coerce : Literal → Default.Coercion Fault := Default.coerce (shape types) (fieldsOf types)

def outputField (j : Json) : Build (Filed (TypeExpr × List (Filed InputType))) := do
  let n ← lift (Part.member "name" (some j))
  let t ← lift (typeOf types (j.member? "type"))
  if !allows types Draft.isOutput t then throw (.source (.invalid "output type"))
  else
    let args := j.member? "args"
    lift (Part.present "args" args)
    let filed ← inputValues types (coerce types) "args" args
    return (← lift (Part.key "name" n), t, filed)

def argumentTypes (filed : List (Filed InputType)) : Except Fault (Table Name TypeExpr) := do
  return (← named filed).map InputType.type

def outputFields (source : Json) : Build (Table Name OutputField) := do
  let fields := source.member? "fields"
  lift (Part.present "fields" fields)
  let filed ← (← lift (Part.items "fields" fields)).mapM (outputField types)
  lift do
    return Table.ofList (← (← named filed).entries.mapM fun (n, t, args) => do
      return (n, ⟨t, ← argumentTypes args⟩))

/-- Checks the interfaces of an object or interface; an interface may have null for none. -/
def checkInterfaces (isInterface : Bool) (source : Json) : Except Fault Unit := do
  match isInterface, source.member? "interfaces" with
  | true, some .null => pure ()
  | _, interfaces =>
    Part.present "interfaces" interfaces
    (← Part.list "interfaces" interfaces).forM fun j => do
      let (_, d) ← findNamed types (some j)
      if d.isInterface then pure () else throw (.invalid "interfaces")

def findObject (what : String) (p : Part) : Except Fault Name := do
  let (n, d) ← findNamed types p
  if d.isObject then return n else throw (.invalid what)

def definition (n : Name) : Draft → Build Definition
  | .standard d => pure d
  | .scalar => pure .scalar
  | .enum _ => pure .enum
  | .object source => do
    lift (checkInterfaces types false source)
    return .object (← outputFields types source)
  | .interface source => do
    lift (checkInterfaces types true source)
    return .interface (← outputFields types source)
  | .union members => do
    lift do
      (← Part.list "possibleTypes" members).forM fun j =>
        discard (findObject types "possibleTypes" (some j))
    return .union
  | .input _ _ => do
    return .input (Table.ofList ((← fieldsOf types n).map fun f => (f.name, f.type)))

def root (schema : Json) (key : String) : Except Fault (Option Name) :=
  let p := schema.member? key
  if Part.isNothing p then pure none else some <$> findObject types key p

/-- Locations are a list; a text is taken for one until the directive is made. -/
def checkLocations (p : Part) : Except Fault Bool := do
  Part.present "locations" p
  match p with
  | some (.string _) => return false
  | p =>
    let _ ← Part.list "locations" p
    return true

/-- A directive: its parts first, then its name and those of its arguments. -/
def checkDirective (j : Json) : Build Unit := do
  let args ← lift (Part.member "args" (some j))
  lift (Part.present "args" args)
  let isList ← lift (checkLocations (j.member? "locations"))
  let filed ← inputValues types (coerce types) "args" args
  let _ ← lift (typeName (j.member? "name"))
  if isList then discard (lift (named filed)) else throw (.source (.invalid "locations"))

def checkDirectives (schema : Json) : Build Unit := do
  let directives := schema.member? "directives"
  if Part.isNothing directives then pure ()
  else (← lift (Part.list "directives" directives)).forM (checkDirective types)

end

/-- Roots first, then directives, and then the listed types in order. -/
def schemaOf (schema : Json) : Build Schema := do
  let types ← lift (drafts schema)
  let query ← lift (root types schema "queryType")
  let mutation ← lift (root types schema "mutationType")
  let subscription ← lift (root types schema "subscriptionType")
  checkDirectives types schema
  let definitions ← types.mapM (definition types)
  return ⟨definitions.insertAll Schema.standardTypes.entries, ⟨query, mutation, subscription⟩⟩

def readSchema (data : Json) : Except Fault Schema :=
  match data.member? "__schema" with
  | some schema@(.object _) | some schema@(.array _) =>
    match (schemaOf schema).run Table.empty with
    | .ok (s, _) => .ok s
    | .error (.source e) => .error e
    | .error (.outputType _) => .error (.invalid "default value")
    | .error (.endless n) => .error (.endlessDefault n)
  | _ => .error (.invalid "__schema")

end TypeGraph.Introspection
