import TypeGraph.Proofs.Outline.Reading

/-! Configurations that are written down and read back. -/

namespace TypeGraph

open Table

instance : DecidablePred IsIndex := fun key =>
  decidable_of_iff (index? key.toList ≠ none) (by rw [ne_eq, index?_eq_none_iff, not_not])

theorem Table.alike_of_written {α β : Type} {R : α → β → Prop} (f : β → α) {t : Table String β}
    (hi : ∀ key ∈ t.keys, ¬ IsIndex key) (h : ∀ b ∈ t.values, R (f b) b) :
    (ofRecord (t.map f).entries).Alike R t := by
  have halike : (ofRecord (t.map f).entries).Alike R (t.map id) := alike_ofRecord_map f id hi h
  rwa [map_id] at halike

namespace Field

variable {field : Field}

def outline (field : Field) : FieldOutline :=
  ⟨field.type.render, (field.args.map Reference.render).entries⟩

structure Writable (field : Field) : Prop where
  type : IsName field.type.target.toList
  targets : ∀ r ∈ field.args.values, IsName r.target.toList
  args : ∀ arg ∈ field.args.keys, ¬ IsIndex arg

instance : DecidablePred Writable := fun field =>
  decidable_of_iff (IsName field.type.target.toList ∧
      (∀ r ∈ field.args.values, IsName r.target.toList) ∧ ∀ arg ∈ field.args.keys, ¬ IsIndex arg)
    ⟨fun ⟨ht, hr, ha⟩ => ⟨ht, hr, ha⟩, fun ⟨ht, hr, ha⟩ => ⟨ht, hr, ha⟩⟩

theorem Writable.describes (hw : field.Writable) :
    field.outline.Describes Reference.Reads field where
  type := Reference.reads_render hw.type
  args := alike_of_written Reference.render hw.args fun r hr =>
    Reference.reads_render (hw.targets r hr)

end Field

namespace Config

variable {c : Config}

def outline (c : Config) : Outline :=
  ⟨c.roots, (c.types.map fun fields => (fields.map Field.outline).entries).entries⟩

/-- Every reference is to a name, and no type, field or argument is called like an index. -/
structure Writable (c : Config) : Prop where
  types : ∀ type ∈ c.types.keys, ¬ IsIndex type
  names : ∀ fields ∈ c.types.values, ∀ name ∈ fields.keys, ¬ IsIndex name
  fields : ∀ fields ∈ c.types.values, ∀ field ∈ fields.values, field.Writable

theorem Writable.describes (hw : c.Writable) : c.outline.Describes Reference.Reads c where
  roots := rfl
  types := by
    have hfields : ∀ fields ∈ c.types.values,
        FieldOutline.DescribesAll Reference.Reads (fields.map Field.outline).entries fields := by
      intro fields hf
      exact alike_of_written Field.outline (hw.names fields hf) fun field hm =>
        (hw.fields fields hf field hm).describes
    exact alike_of_written _ hw.types hfields

/-- A configuration that is written down is read back as it was, with its types, fields and
arguments in the same order. -/
theorem ofOutline_outline (hw : c.Writable) : ofOutline c.outline = .ok c :=
  ofOutline_eq_ok_iff.mpr hw.describes

def almanac : Config :=
  ⟨Table.ofList [
    ("Year", Table.ofList [
      ("days", ⟨⟨"Day", true, true⟩,
        Table.ofList [("007", ⟨"Int", false, true⟩), ("last", ⟨"Int", true, false⟩)]⟩),
      ("4294967295", ⟨⟨"__Moon", false, false⟩, Table.empty⟩)]),
    ("Day", Table.empty)],
    { query := some "Year", subscription := some "Tide" }⟩

theorem ofOutline_outline_almanac :
    almanac.Writable ∧ ofOutline almanac.outline = .ok almanac := by
  have hw : almanac.Writable := ⟨by decide, by decide, by decide⟩
  exact ⟨hw, ofOutline_outline hw⟩

end Config
end TypeGraph
