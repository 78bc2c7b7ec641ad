import TypeGraph.Schema.Flatten
import TypeGraph.Proofs.Alike

/-! The types of a schema that its configuration holds. -/

namespace TypeGraph

def OutputField.typeExprs (f : OutputField) : List TypeExpr := f.args.values ++ [f.type]

namespace Definition

def typeExprs : Definition → List TypeExpr
  | object fields | interface fields => fields.values.flatMap OutputField.typeExprs
  | input fields => fields.values
  | enum | union | scalar => []

def hasFields : Definition → Bool
  | object _ | interface _ | input _ => true
  | enum | union | scalar => false

theorem isSome_fields? (d : Definition) : d.fields?.isSome = d.hasFields := by
  cases d <;> rfl

end Definition

namespace Schema

def Holds (n : Name) (d : Definition) : Prop := d.hasFields ∧ n.text ∉ introspectionTypes

instance (n : Name) (d : Definition) : Decidable (Holds n d) :=
  inferInstanceAs (Decidable (_ ∧ _))

def held (s : Schema) : List (Name × Definition) := s.types.entries.filter fun e => Holds e.1 e.2

def heldTypes (s : Schema) : List TypeExpr := s.held.flatMap fun e => e.2.typeExprs

def heldFields? (n : Name) (d : Definition) : Option Fields :=
  if isIntrospectionType n then none else d.fields?

theorem isSome_heldFields?_iff {n : Name} {d : Definition} :
    (heldFields? n d).isSome ↔ Holds n d := by
  by_cases hi : n.text ∈ introspectionTypes <;>
    simp [heldFields?, isIntrospectionType, Holds, hi, d.isSome_fields?]

theorem fields?_of_heldFields? {n : Name} {d : Definition} {fields : Fields}
    (h : heldFields? n d = some fields) : d.fields? = some fields :=
  (Option.ite_none_left_eq_some.mp h).2

theorem entries_flatten (s : Schema) :
    s.flatten.types.entries =
      s.types.entries.filterMap fun e => (heldFields? e.1 e.2).map (e.1.text, ·) := by
  simp only [flatten, Table.rekey, Table.filterMap, List.map_filterMap, Option.map_map]
  rfl

theorem forall₂_held (s : Schema) :
    List.Forall₂ (fun e held => held.1 = e.1.text ∧ e.2.fields? = some held.2) s.held
      s.flatten.types.entries := by
  rw [entries_flatten, held]
  induction s.types.entries with
  | nil => exact .nil
  | cons e es ih =>
    cases hfields : heldFields? e.1 e.2 with
    | none =>
      have hno : ¬ Holds e.1 e.2 := by simp [← isSome_heldFields?_iff, hfields]
      simpa [hfields, hno] using ih
    | some fields =>
      have hholds : Holds e.1 e.2 := by simp [← isSome_heldFields?_iff, hfields]
      simpa [hfields, hholds] using ⟨fields?_of_heldFields? hfields, ih⟩

theorem keys_flatten (s : Schema) : s.flatten.types.keys = s.held.map fun e => e.1.text := by
  have hnames : List.Forall₂ (fun d e => e.1 = d.1) (s.held.map fun e => (e.1.text, e.2))
      s.flatten.types.entries := by
    rw [List.forall₂_map_left_iff]
    exact (forall₂_held s).imp fun _ _ he => he.1
  have hkeys := Table.map_fst_eq_of_forall₂ hnames
  rwa [List.map_map] at hkeys

theorem mem_types_flatten {s : Schema} {name : String} :
    name ∈ s.flatten.types ↔ name ∈ s.held.map fun e => e.1.text := by
  rw [← keys_flatten]
  exact Table.mem_iff

end Schema
end TypeGraph
