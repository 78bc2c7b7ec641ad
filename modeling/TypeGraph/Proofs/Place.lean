import TypeGraph.Config
import TypeGraph.Proofs.Lookup

/-! The places at which a configuration refers to types. -/

namespace TypeGraph

/-- A field of a type, or one of the arguments of that field. -/
structure Place where
  type : String
  field : String
  arg : Option String
  deriving DecidableEq

def Field.reference? (field : Field) : Option String → Option Reference
  | none => some field.type
  | some arg => field.args.get? arg

namespace Config

def reference? (c : Config) (p : Place) : Option Reference :=
  (c.field? p.type p.field).bind fun field => field.reference? p.arg

def Refers (c : Config) (name : String) : Prop :=
  ∃ place reference, c.reference? place = some reference ∧ reference.target = name

def Mentions (c : Config) (name : String) : Prop := c.Refers name ∨ name ∈ c.roots.names

def Occurs (c : Config) (name : String) : Prop := name ∈ c.types ∨ c.Mentions name

def Dangling (c : Config) (name : String) : Prop := c.Refers name ∧ name ∉ c.types

theorem mem_of_reference? {c : Config} {p : Place} {reference : Reference}
    (h : c.reference? p = some reference) : p.type ∈ c.types := by
  obtain ⟨field, hf, -⟩ := Option.bind_eq_some_iff.mp h
  obtain ⟨fields, ht, -⟩ := Option.bind_eq_some_iff.mp hf
  exact Table.mem_of_get?_eq_some ht

end Config

@[simp]
theorem Field.reference?_mapTargets (f : String → String) (field : Field) (arg : Option String) :
    (field.mapTargets f).reference? arg = (field.reference? arg).map (Reference.mapTarget f) := by
  cases arg with
  | none => rfl
  | some arg => exact Table.get?_map _ field.args arg

theorem Field.mapTargets_comp (f g : String → String) :
    Field.mapTargets g ∘ Field.mapTargets f = Field.mapTargets (g ∘ f) := by
  funext field
  exact Field.ext rfl (Table.map_map _ _ field.args)

@[simp]
theorem Fields.mapTargets_mapTargets (f g : String → String) (fields : Fields) :
    (fields.mapTargets f).mapTargets g = fields.mapTargets (g ∘ f) := by
  rw [mapTargets, mapTargets, Table.map_map, Field.mapTargets_comp]
  rfl

@[simp]
theorem Fields.mapTargets_id (fields : Fields) : fields.mapTargets id = fields := by
  have hfield : Field.mapTargets id = id := by
    funext field
    exact Field.ext rfl (Table.map_id field.args)
  rw [mapTargets, hfield]
  exact Table.map_id fields

theorem Fields.mapTargets_congr {f g : String → String} {fields : Fields}
    (h : ∀ name field, fields.get? name = some field → ∀ arg reference,
      field.reference? arg = some reference → f reference.target = g reference.target) :
    fields.mapTargets f = fields.mapTargets g := by
  refine Table.map_congr fun name field hf => ?_
  have htype : field.type.mapTarget f = field.type.mapTarget g := by
    have ht := h name field hf none field.type rfl
    rw [Reference.mapTarget, Reference.mapTarget, ht]
  have hargs : field.args.map (Reference.mapTarget f) = field.args.map (Reference.mapTarget g) := by
    refine Table.map_congr fun arg reference ha => ?_
    have ht := h name field hf (some arg) reference ha
    rw [Reference.mapTarget, Reference.mapTarget, ht]
  exact Field.ext htype hargs

end TypeGraph
