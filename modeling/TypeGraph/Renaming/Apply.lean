import TypeGraph.Renaming.Arrangement
import TypeGraph.Validation

/-! Renaming the types of a configuration: every type key, root and reference at once. -/

namespace TypeGraph

structure MissingType where
  name : String
  deriving DecidableEq

namespace MissingType

def message (e : MissingType) : String :=
  "Type '" ++ e.name ++ "' not found in configuration."

end MissingType

structure Renamed where
  config : Config
  collisions : List Collision
  deriving DecidableEq

namespace Renamed

def notices (r : Renamed) : List String := r.collisions.map fun c => noticeLine c.message

end Renamed

namespace Renaming

def check (r : Renaming) (c : Config) : Validation MissingType (List Unit) :=
  Validation.fromList (fun old => if old ∈ c.types then .success () else .fail ⟨old⟩) r.keys

def rootOf? (roots : Roots String) (name : String) : Option Operation :=
  Operation.all.find? fun k => roots.get k = some name

/-- Each pair sets the first root that its old name has in the input. -/
def renameRoots (r : Renaming) (roots : Roots String) : Roots String :=
  r.entries.foldl (fun out p =>
    match rootOf? roots p.1 with
    | some k => out.set k p.2
    | none => out) roots

def rename (r : Renaming) (c : Config) : Renamed :=
  let arrangement := Arrangement.of c.types r
  let types := (arrangement.types c.types.size).map (Fields.mapTargets r.resolve)
  ⟨⟨types, r.renameRoots c.roots⟩, arrangement.collisions⟩

def apply (r : Renaming) (c : Config) : Validation MissingType Renamed :=
  (r.check c).map fun _ => r.rename c

def noticesOf (outcome : Validation MissingType Renamed) : List String :=
  match outcome with
  | .success renamed => renamed.notices
  | .failure _ => []

end Renaming
end TypeGraph
