import TypeGraph.Config
import TypeGraph.Table.IndexFirst

/-! Renamings, and where the types of a configuration go when some are renamed.

A type that keeps its name keeps its slot. A renamed type takes its own slot, or the slot of
the type that holds its new name, which it replaces. -/

namespace TypeGraph

abbrev Renaming := Table String String

namespace Renaming

/-- A repeated old name keeps its first place and takes its last new name. -/
def ofPairs (pairs : List (String × String)) : Renaming := Table.ofList pairs

def ofRecord (pairs : List (String × String)) : Renaming := Table.ofRecord pairs

def resolve (r : Renaming) (name : String) : String := (r.get? name).getD name

end Renaming

/-- A type under its final name: its slot, the name it had, and its fields. -/
structure Seat where
  slot : Nat
  origin : String
  fields : Fields
  deriving DecidableEq

/-- A renamed type took the place of another, called `replaced` in the input. -/
structure Collision where
  old : String
  new : String
  replaced : String
  deriving DecidableEq

namespace Collision

/-- Says where references point now; two renamed types that meet are told apart from a
renamed type that meets one that bore the name before. -/
def message (c : Collision) : String :=
  if c.replaced = c.new then
    "Renaming '" ++ c.old ++ "' to '" ++ c.new ++ "' replaces the existing type '" ++ c.new ++
      "', references to '" ++ c.new ++ "' now point at the former '" ++ c.old ++ "'"
  else
    "Renaming '" ++ c.old ++ "' to '" ++ c.new ++ "' replaces '" ++ c.replaced ++
      "', renamed to the same name, references to both now point at the former '" ++ c.old ++ "'"

end Collision

structure Arrangement where
  placed : Table String Seat
  collisions : List Collision
  deriving DecidableEq

namespace Arrangement

def unrenamed (types : Table String Fields) (r : Renaming) : Table String Seat :=
  types.filterMap fun name fields =>
    if name ∈ r then none else (types.slot? name).map fun slot => ⟨slot, name, fields⟩

def start (types : Table String Fields) (r : Renaming) : Arrangement := ⟨unrenamed types r, []⟩

def place (types : Table String Fields) (a : Arrangement) (old new : String) : Arrangement :=
  match types.slot? old, types.get? old with
  | some own, some fields =>
    match a.placed.get? new with
    | some previous =>
      ⟨a.placed.insert new ⟨previous.slot, old, fields⟩,
        a.collisions ++ [⟨old, new, previous.origin⟩]⟩
    | none => ⟨a.placed.insert new ⟨own, old, fields⟩, a.collisions⟩
  | _, _ => a

def placeAll (types : Table String Fields) (a : Arrangement) (pairs : List (String × String)) :
    Arrangement :=
  pairs.foldl (fun a p => a.place types p.1 p.2) a

def of (types : Table String Fields) (r : Renaming) : Arrangement :=
  (start types r).placeAll types r.entries

def row (size : Nat) (placed : Table String Seat) : List (Option (String × Fields)) :=
  placed.entries.foldl (fun cells e => cells.set e.2.slot (some (e.1, e.2.fields)))
    (List.replicate size none)

def types (size : Nat) (a : Arrangement) : Table String Fields :=
  Table.ofList ((row size a.placed).filterMap id)

end Arrangement
end TypeGraph
