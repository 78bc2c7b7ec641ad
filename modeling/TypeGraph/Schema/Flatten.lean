import TypeGraph.Schema.Standard

/-! The configuration graph of a schema, and the types that it cannot hold. -/

namespace TypeGraph

structure Omission where
  kind : String
  name : Name
  deriving DecidableEq

namespace Omission

def message (o : Omission) : String :=
  "The " ++ o.kind ++ " \"" ++ o.name.text ++
    "\" is not part of the configuration graph, skipped"

end Omission

namespace OutputField

def flatten (f : OutputField) : Field :=
  ⟨f.type.reference, (f.args.map TypeExpr.reference).rekey Name.text Name.text_inj⟩

end OutputField

namespace Definition

def fields? : Definition → Option Fields
  | object fields | interface fields =>
    some ((fields.map OutputField.flatten).rekey Name.text Name.text_inj)
  | input fields =>
    some ((fields.map fun t => ⟨t.reference, Table.empty⟩).rekey Name.text Name.text_inj)
  | enum | union | scalar => none

def omittedKind? : Definition → Option String
  | enum => some "enum"
  | union => some "union"
  | scalar => some "scalar"
  | object _ | interface _ | input _ => none

end Definition

namespace Schema

def isIntrospectionType (n : Name) : Bool := introspectionTypes.contains n.text

def isSpecifiedScalar (n : Name) (d : Definition) : Bool :=
  d = .scalar && specifiedScalars.contains n.text

def flatten (s : Schema) : Config :=
  let kept := s.types.filterMap fun n d => if isIntrospectionType n then none else d.fields?
  ⟨kept.rekey Name.text Name.text_inj, s.roots.map Name.text⟩

def omissions (s : Schema) : List Omission :=
  s.types.entries.filterMap fun (n, d) =>
    if isIntrospectionType n || isSpecifiedScalar n d then none
    else d.omittedKind?.map fun kind => ⟨kind, n⟩

def notices (s : Schema) : List String := s.omissions.map fun o => noticeLine o.message

end Schema

structure Loaded where
  config : Config
  notices : List String
  deriving DecidableEq

def Loaded.ofSchema (s : Schema) : Loaded := ⟨s.flatten, s.notices⟩

end TypeGraph
