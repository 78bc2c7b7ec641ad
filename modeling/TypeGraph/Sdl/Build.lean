import TypeGraph.Schema.Default
import TypeGraph.Sdl.Parser
import TypeGraph.Sdl.Rules

/-! Schemas of documents: extensions merged into the types they extend, defaults worked out,
standard types put in the place of those of the same name. -/

namespace TypeGraph.Sdl

inductive Fault where
  | grammar
  | rules (violations : List Violation)
  | directiveValue (directive : Name)
  | outputDefault (type : Name)
  | endlessDefault (type : Name)
  deriving DecidableEq

namespace Fault

def message : Fault → String
  | grammar => "The text is not a schema document."
  | rules violations =>
    "The document breaks the rules of schema documents in " ++ Nat.repr violations.length ++
      " places."
  | directiveValue d => "The directive '@" ++ d.text ++ "' has an argument of the wrong type."
  | outputDefault t => "The type '" ++ t.text ++ "' has no literals, yet a default value."
  | endlessDefault t => "A default value of the type '" ++ t.text ++ "' contains itself."

def ofDefault : DefaultFault Name → Fault
  | .outputType n => outputDefault n
  | .endless n => endlessDefault n
  | .source directive => directiveValue directive

end Fault

structure MergedType where
  definition : TypeItem
  extensions : List TypeItem

namespace MergedType

def name (t : MergedType) : Name := t.definition.name

def bodies (t : MergedType) : List TypeBody :=
  t.definition.body :: t.extensions.map TypeItem.body

def outputFields (t : MergedType) : List FieldDefinition :=
  t.bodies.flatMap TypeBody.outputFields

def inputFields (t : MergedType) : List InputValue := t.bodies.flatMap TypeBody.inputFields

def enumValues (t : MergedType) : List EnumValue := t.bodies.flatMap TypeBody.enumValues

def isOneOf (t : MergedType) : Bool :=
  t.definition.directives.any fun a => a.name.text == "oneOf"

def shape (t : MergedType) : Shape :=
  match t.definition.body with
  | .scalar => .leaf .custom
  | .enum _ => .leaf (.enum (t.enumValues.map fun v => v.name.text))
  | .input _ => .input t.isOneOf
  | .object _ _ | .interface _ _ | .union _ => .output

def argumentTypes (args : List InputValue) : Table Name TypeExpr :=
  Table.ofList (args.map fun v => (v.name, v.type))

def outputTable (t : MergedType) : Table Name OutputField :=
  Table.ofList (t.outputFields.map fun f => (f.name, ⟨f.type, argumentTypes f.args⟩))

def result (t : MergedType) : Definition :=
  match t.definition.body with
  | .scalar => .scalar
  | .object _ _ => .object t.outputTable
  | .interface _ _ => .interface t.outputTable
  | .union _ => .union
  | .enum _ => .enum
  | .input _ => .input (argumentTypes t.inputFields)

end MergedType

namespace Document

variable (doc : Document)

def merge (t : TypeItem) : MergedType :=
  ⟨t, doc.extensions.filter fun e => e.name = t.name⟩

def mergedTypes : List MergedType := doc.types.map doc.merge

def ownTypes : List MergedType := doc.mergedTypes.filter fun t => !Schema.isStandard t.name

def merged? (n : Name) : Option MergedType :=
  if Schema.isStandard n then none
  else (doc.types.find? fun t => t.name = n).map doc.merge

def shape (n : Name) : Shape :=
  match Leaf.standard? n, doc.merged? n with
  | some leaf, _ => .leaf leaf
  | none, some t => t.shape
  | none, none => .output

-- Checks made while a schema is built

/-- The check of a directive: the first application that is found has to give its argument
as a string, or leave it out or null where that is allowed. -/
def checkText (directive argument : String) (optional : Bool) (applied : List Application) :
    Except Name Unit :=
  match applied.find? fun a => a.name.text == directive with
  | none => pure ()
  | some a =>
    match (a.args.find? fun p => p.1.text == argument).map Prod.snd with
    | some .string => pure ()
    | some .null | none => if optional then pure () else throw a.name
    | some _ => throw a.name

def checkDeprecated (applied : List Application) : Except Name Unit :=
  checkText "deprecated" "reason" true applied

def checkSpecified (applied : List Application) : Except Name Unit :=
  checkText "specifiedBy" "url" false applied

def lift {α : Type} (check : Except Name α) : Default.Build Name α :=
  match check with
  | .ok a => pure a
  | .error directive => throw (.source directive)

def inputValue (coerce : Literal → Default.Coercion Name) (v : InputValue) :
    Default.Build Name InputField := do
  let default ← match v.default with
    | some l => coerce l v.type
    | none => pure none
  lift (checkDeprecated v.directives)
  return ⟨v.name, v.type, default⟩

def recipe (n : Name) : Default.Recipe Name := fun coerce =>
  match doc.merged? n with
  | some t => t.inputFields.mapM (inputValue coerce)
  | none => pure []

/-- As many types as could wait for each other's defaults. -/
def levels : Nat := doc.types.length + 1

def fieldsOf : Name → Default.Build Name (List InputField) :=
  Default.fieldsOf doc.shape doc.recipe doc.levels

def coerce : Literal → Default.Coercion Name := Default.coerce doc.shape doc.fieldsOf

def checkMade (t : MergedType) : Default.Build Name Unit :=
  match t.definition.body with
  | .enum _ => t.enumValues.forM fun v => lift (checkDeprecated v.directives)
  | .scalar => lift (checkSpecified t.definition.directives)
  | _ => pure ()

def checkField (f : FieldDefinition) : Default.Build Name Unit := do
  f.args.forM fun v => discard (inputValue doc.coerce v)
  lift (checkDeprecated f.directives)

def checkFields (t : MergedType) : Default.Build Name Unit :=
  match t.definition.body with
  | .input _ => discard (doc.fieldsOf t.name)
  | _ => t.outputFields.forM doc.checkField

/-- All checks in order: types are made, then directives, and then fields are looked at. -/
def check : Default.Build Name Unit := do
  doc.ownTypes.forM checkMade
  doc.directives.forM fun d => d.args.forM fun v => discard (inputValue doc.coerce v)
  doc.ownTypes.forM doc.checkFields

-- The schema

def listedRoots (items : List SchemaItem) : Roots Name :=
  (items.flatMap SchemaItem.roots).foldl (fun r p => r.set p.1 p.2) {}

def conventionalRoot? (k : Operation) : Option Name :=
  let label := match k with
    | .query => "Query"
    | .mutation => "Mutation"
    | .subscription => "Subscription"
  doc.typeNames.find? fun n => n.text = label

/-- The listed roots; without a schema definition, types with the usual names come first. -/
def roots : Roots Name :=
  let listed := listedRoots (doc.schemas ++ doc.schemaExtensions)
  if doc.schemas.isEmpty then
    Operation.all.foldl (fun r k => match doc.conventionalRoot? k with
      | some n => r.set k n
      | none => r) listed
  else listed

def schema : Schema :=
  let own : Table Name Definition :=
    Table.ofList (doc.mergedTypes.map fun t => (t.name, t.result))
  ⟨own.insertAll Schema.standardTypes.entries, doc.roots⟩

def build : Except Fault Schema :=
  match doc.violations with
  | [] =>
    match doc.check.run Table.empty with
    | .ok _ => .ok doc.schema
    | .error e => .error (Fault.ofDefault e)
  | violations => .error (.rules violations)

end Document

def readSchema (text : String) : Except Fault Schema :=
  match Document.parse? text with
  | some doc => doc.build
  | none => .error .grammar

end TypeGraph.Sdl
