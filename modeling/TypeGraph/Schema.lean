import TypeGraph.Config

/-! Schemas: named types whose fields and arguments have wrapped types. -/

namespace TypeGraph

inductive TypeExpr where
  | named (name : Name)
  | list (item : TypeExpr)
  | nonNull (type : TypeExpr)
  deriving DecidableEq

namespace TypeExpr

def isNonNull : TypeExpr → Bool
  | nonNull _ => true
  | _ => false

def isList : TypeExpr → Bool
  | list _ => true
  | _ => false

def nullable : TypeExpr → TypeExpr
  | nonNull t => t
  | t => t

def name : TypeExpr → Name
  | named n => n
  | list t => t.name
  | nonNull t => t.name

def WellFormed : TypeExpr → Prop
  | named _ => True
  | list t => t.WellFormed
  | nonNull t => t.isNonNull = false ∧ t.WellFormed

def nonNull? (t : TypeExpr) : Option TypeExpr := if t.isNonNull then none else some (nonNull t)

/-- Flattens the wrappers: one bracket for all lists, and the outermost mark. -/
def reference (t : TypeExpr) : Reference := ⟨t.name.text, t.nullable.isList, t.isNonNull⟩

end TypeExpr

structure OutputField where
  type : TypeExpr
  args : Table Name TypeExpr
  deriving DecidableEq

inductive Definition where
  | object (fields : Table Name OutputField)
  | interface (fields : Table Name OutputField)
  | input (fields : Table Name TypeExpr)
  | enum
  | union
  | scalar
  deriving DecidableEq

structure Schema where
  types : Table Name Definition
  roots : Roots Name
  deriving DecidableEq

end TypeGraph
