import TypeGraph.Reference
import TypeGraph.Table

/-! The configuration graph: types with their fields, fields with their arguments, and the
types at which operations start. -/

namespace TypeGraph

inductive Operation where
  | query
  | mutation
  | subscription
  deriving DecidableEq, Inhabited

namespace Operation

def all : List Operation := [query, mutation, subscription]

def label : Operation → String
  | query => "query"
  | mutation => "mutation"
  | subscription => "subscription"

end Operation

@[ext]
structure Roots (α : Type) where
  query : Option α := none
  mutation : Option α := none
  subscription : Option α := none
  deriving DecidableEq, Inhabited

namespace Roots

variable {α β : Type}

def get (r : Roots α) : Operation → Option α
  | .query => r.query
  | .mutation => r.mutation
  | .subscription => r.subscription

def set (r : Roots α) (k : Operation) (a : α) : Roots α :=
  match k with
  | .query => { r with query := some a }
  | .mutation => { r with mutation := some a }
  | .subscription => { r with subscription := some a }

def map (f : α → β) (r : Roots α) : Roots β :=
  ⟨r.query.map f, r.mutation.map f, r.subscription.map f⟩

theorem get_set (r : Roots α) (j k : Operation) (a : α) :
    (r.set j a).get k = if j = k then some a else r.get k := by
  cases j <;> cases k <;> rfl

@[simp]
theorem get_map (f : α → β) (r : Roots α) (k : Operation) : (r.map f).get k = (r.get k).map f := by
  cases k <;> rfl

def names (r : Roots α) : List α := Operation.all.filterMap r.get

end Roots

@[ext]
structure Field where
  type : Reference
  args : Table String Reference
  deriving DecidableEq, Inhabited

abbrev Fields := Table String Field

@[ext]
structure Config where
  types : Table String Fields
  roots : Roots String
  deriving DecidableEq, Inhabited

def Field.mapTargets (f : String → String) (field : Field) : Field :=
  ⟨field.type.mapTarget f, field.args.map (Reference.mapTarget f)⟩

def Fields.mapTargets (f : String → String) (fields : Fields) : Fields :=
  fields.map (Field.mapTargets f)

@[simp]
theorem Fields.get?_mapTargets (f : String → String) (fields : Fields) (name : String) :
    (fields.mapTargets f).get? name = (fields.get? name).map (Field.mapTargets f) :=
  Table.get?_map _ fields name

namespace Config

def type? (c : Config) (name : String) : Option Fields := c.types.get? name

def field? (c : Config) (type field : String) : Option Field :=
  (c.type? type).bind fun fields => fields.get? field

end Config

def noticeLine (message : String) : String := "[gqlconf] " ++ message

end TypeGraph
