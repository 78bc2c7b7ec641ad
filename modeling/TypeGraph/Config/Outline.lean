import TypeGraph.Config
import TypeGraph.Table.IndexFirst

/-! Outlines: configurations written down as records of type references. -/

namespace TypeGraph

structure FieldOutline where
  type : String
  args : List (String × String) := []

/-- A configuration written down. Each list of pairs is read as a record. -/
structure Outline where
  roots : Roots String
  types : List (String × List (String × FieldOutline))

namespace Field

/-- The arguments are read before the field's own reference. -/
def ofOutline (d : FieldOutline) : Except IllegalReference Field := do
  let args ← (Table.ofRecord d.args).mapM fun _ => Reference.parse
  let type ← Reference.parse d.type
  return ⟨type, args⟩

end Field

namespace Config

def ofOutline (d : Outline) : Except IllegalReference Config := do
  let types ← (Table.ofRecord d.types).mapM fun _ fields =>
    (Table.ofRecord fields).mapM fun _ => Field.ofOutline
  return ⟨types, d.roots⟩

end Config
end TypeGraph
