import TypeGraph.Schema.Standard
import TypeGraph.Sdl.Document

/-! The rules that a grammatical document has to keep before a schema is built from it. -/

namespace TypeGraph.Sdl

inductive Violation where
  | secondSchema
  | repeatedRoot (kind : Operation)
  | repeatedType (name : Name)
  | repeatedEnumValue (type name : Name)
  | repeatedField (type name : Name)
  | repeatedArgumentDefinition (owner name : Name)
  | repeatedDirectiveDefinition (name : Name)
  | unknownType (name : Name)
  | unknownDirective (name : Name)
  | misplacedDirective (name : Name)
  | repeatedDirective (name : Name)
  | unknownExtension (name : Name)
  | otherKindExtended (name : Name)
  | unknownArgument (directive name : Name)
  | repeatedArgument (name : Name)
  | repeatedInputField (name : Name)
  | missingArgument (directive name : Name)
  deriving DecidableEq

def repeated {α : Type} [DecidableEq α] : List α → List α
  | [] => []
  | a :: rest => if a ∈ rest then a :: repeated rest else repeated rest

structure DirectiveRule where
  args : List Name
  required : List Name
  repeatable : Bool
  locations : List Location

namespace DirectiveItem

def isRequired (v : InputValue) : Bool := v.type.isNonNull && v.default.isNone

def rule (d : DirectiveItem) : DirectiveRule :=
  ⟨d.args.map InputValue.name, (d.args.filter isRequired).map InputValue.name, d.repeatable,
    d.locations⟩

end DirectiveItem

namespace DirectiveRule

open Schema.Standard (ident)

def standard? (n : Name) : Option DirectiveRule :=
  match n.text with
  | "skip" | "include" =>
    some ⟨[ident "if"], [ident "if"], false, [.field, .fragmentSpread, .inlineFragment]⟩
  | "deprecated" =>
    some ⟨[ident "reason"], [], false,
      [.fieldDefinition, .argumentDefinition, .inputFieldDefinition, .enumValue]⟩
  | "specifiedBy" => some ⟨[ident "url"], [ident "url"], false, [.type .scalar]⟩
  | "oneOf" => some ⟨[], [], false, [.type .input]⟩
  | _ => none

end DirectiveRule

namespace InputValue

def sites (location : Location) (vs : List InputValue) : List Site :=
  vs.map fun v => ⟨location, v.directives⟩

def defaults (vs : List InputValue) : List Literal := vs.filterMap InputValue.default

end InputValue

namespace FieldDefinition

def sites (f : FieldDefinition) : List Site :=
  ⟨.fieldDefinition, f.directives⟩ :: InputValue.sites .argumentDefinition f.args

def types (f : FieldDefinition) : List Name := f.type.name :: f.args.map fun v => v.type.name

end FieldDefinition

namespace TypeBody

/-- The places inside a body; only a definition has input fields in the strict sense, those
of an extension count as arguments. -/
def sites (inputLocation : Location) (b : TypeBody) : List Site :=
  b.outputFields.flatMap FieldDefinition.sites ++
    (b.enumValues.map fun v => ⟨.enumValue, v.directives⟩) ++
    InputValue.sites inputLocation b.inputFields

def types (b : TypeBody) : List Name :=
  b.relatives ++ b.outputFields.flatMap FieldDefinition.types ++
    b.inputFields.map fun v => v.type.name

def defaults (b : TypeBody) : List Literal :=
  b.outputFields.flatMap (fun f => InputValue.defaults f.args) ++
    InputValue.defaults b.inputFields

end TypeBody

namespace Item

def ownSite? : Item → Option Site
  | .schema s | .extendSchema s => some ⟨.schema, s.directives⟩
  | .type t | .extendType t => some ⟨.type t.body.kind, t.directives⟩
  | .directive _ | .executable _ => none

def innerSites : Item → List Site
  | .schema _ | .extendSchema _ => []
  | .type t => t.body.sites .inputFieldDefinition
  | .extendType t => t.body.sites .argumentDefinition
  | .directive d => InputValue.sites .argumentDefinition d.args
  | .executable m => m.sites

def sites (i : Item) : List Site := i.ownSite?.toList ++ i.innerSites

def types : Item → List Name
  | .schema s | .extendSchema s => s.roots.map Prod.snd
  | .type t | .extendType t => t.body.types
  | .directive d => d.args.map fun v => v.type.name
  | .executable _ => []

def defaults : Item → List Literal
  | .schema _ | .extendSchema _ => []
  | .type t | .extendType t => t.body.defaults
  | .directive d => InputValue.defaults d.args
  | .executable m => m.defaults

end Item

namespace Document

variable (doc : Document)

def sites : List Site := doc.flatMap Item.sites

def applications : List Application := doc.sites.flatMap Site.directives

def typeNames : List Name := doc.types.map TypeItem.name

/-- A directive of the document hides the standard one of the same name. -/
def directiveRule? (n : Name) : Option DirectiveRule :=
  match doc.directives.find? fun d => d.name = n with
  | some d => some d.rule
  | none => DirectiveRule.standard? n

def schemaViolations : List Violation :=
  ((doc.schemas.drop 1).map fun _ => .secondSchema) ++
    (repeated ((doc.schemas ++ doc.schemaExtensions).flatMap fun s => s.roots.map Prod.fst)).map
      .repeatedRoot

def groups : List (Name × List TypeItem) :=
  (doc.typeItems.map TypeItem.name).eraseDups.map fun n =>
    (n, doc.typeItems.filter fun t => t.name = n)

def memberViolations : List Violation :=
  doc.groups.flatMap fun (n, items) =>
    (repeated (items.flatMap fun t => t.body.enumValues.map EnumValue.name)).map
        (.repeatedEnumValue n) ++
      (repeated (items.flatMap fun t => t.body.fieldNames)).map (.repeatedField n)

def argumentDefinitionViolations : List Violation :=
  let fields := doc.typeItems.flatMap fun t => t.body.outputFields
  let check (owner : Name) (args : List InputValue) : List Violation :=
    (repeated (args.map InputValue.name)).map (.repeatedArgumentDefinition owner)
  fields.flatMap (fun f => check f.name f.args) ++
    doc.directives.flatMap fun d => check d.name d.args

def definitionViolations : List Violation :=
  (repeated doc.typeNames).map .repeatedType ++ doc.memberViolations ++
    doc.argumentDefinitionViolations ++
    (repeated (doc.directives.map DirectiveItem.name)).map .repeatedDirectiveDefinition

/-- A schema may name standard types; an executable definition only those of the document. -/
def typeViolations : List Violation :=
  let defined := doc.typeNames
  ((doc.flatMap Item.types).filter fun n => !Schema.isStandard n && !defined.contains n).map
      .unknownType ++
    (doc.mentions.types.filter fun n => !defined.contains n).map .unknownType

def placeViolations : List Violation :=
  doc.sites.flatMap fun site => site.directives.filterMap fun a =>
    match doc.directiveRule? a.name with
    | none => some (.unknownDirective a.name)
    | some rule => if rule.locations.contains site.location then none
      else some (.misplacedDirective a.name)

/-- The directives that have to be different: those of all schema items, those of all items
of one type, and those of every other place. -/
def directiveGroups : List (List Application) :=
  let schema := (doc.schemas ++ doc.schemaExtensions).flatMap SchemaItem.directives
  schema :: ((doc.groups.map fun (_, items) => items.flatMap TypeItem.directives) ++
    (doc.flatMap Item.innerSites).map Site.directives)

def repetitionViolations : List Violation :=
  let once (a : Application) : Bool := match doc.directiveRule? a.name with
    | some rule => !rule.repeatable
    | none => false
  doc.directiveGroups.flatMap fun group =>
    (repeated ((group.filter once).map Application.name)).map .repeatedDirective

def extensionViolations : List Violation :=
  doc.extensions.filterMap fun t =>
    match doc.types.find? fun d => d.name = t.name with
    | none => some (.unknownExtension t.name)
    | some d => if d.body.kind = t.body.kind then none else some (.otherKindExtended t.name)

def argumentViolations : List Violation :=
  doc.applications.flatMap fun a =>
    match doc.directiveRule? a.name with
    | none => []
    | some rule =>
      let given := a.args.map Prod.fst
      ((given.filter fun n => !rule.args.contains n).map (.unknownArgument a.name)) ++
        (rule.required.filter fun n => !given.contains n).map (.missingArgument a.name)

/-- Arguments that are given together have different names, and so have the fields of an
object literal. -/
def literalViolations : List Violation :=
  let arguments := doc.applications.map Application.args ++ doc.mentions.arguments
  let literals := arguments.flatMap (fun args => args.map Prod.snd) ++ doc.flatMap Item.defaults
  arguments.flatMap (fun args => (repeated (args.map Prod.fst)).map .repeatedArgument) ++
    (literals.flatMap Literal.objects).flatMap fun fields =>
      (repeated (fields.map Prod.fst)).map .repeatedInputField

def violations : List Violation :=
  doc.schemaViolations ++ doc.definitionViolations ++ doc.typeViolations ++
    doc.placeViolations ++ doc.repetitionViolations ++ doc.extensionViolations ++
    doc.argumentViolations ++ doc.literalViolations

end Document
end TypeGraph.Sdl
