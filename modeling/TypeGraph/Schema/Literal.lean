import TypeGraph.Name

/-! Literals: values as they are written in a document. -/

namespace TypeGraph

/-- A written value. The content of strings and floats is not kept, as no configuration
shows it. -/
inductive Literal where
  | variable
  | null
  | int (value : Int)
  | float
  | string
  | boolean
  | enum (name : Name)
  | list (items : List Literal)
  | object (fields : List (Name × Literal))
  deriving Inhabited

abbrev Arguments := List (Name × Literal)

namespace Literal

mutual

def objects : Literal → List Arguments
  | list items => objectsOfItems items
  | object fields => fields :: objectsOfFields fields
  | _ => []

def objectsOfItems : List Literal → List Arguments
  | [] => []
  | l :: rest => l.objects ++ objectsOfItems rest

def objectsOfFields : Arguments → List Arguments
  | [] => []
  | (_, l) :: rest => l.objects ++ objectsOfFields rest

end

def find? (name : Name) (fields : List (Name × α)) : Option α :=
  (fields.reverse.find? fun f => f.1 = name).map Prod.snd

end Literal
end TypeGraph
