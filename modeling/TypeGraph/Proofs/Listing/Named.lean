import TypeGraph.Proofs.Renaming.Result
import TypeGraph.Proofs.Renaming.Roots
import TypeGraph.Proofs.Schema.Outline

/-! The names in a configuration. In that of a schema they are all spelled as names, and a renaming
whose new names are spelled so keeps it that way. -/

namespace TypeGraph

def Table.Named {α : Type} (p : α → Prop) (t : Table String α) : Prop :=
  ∀ e ∈ t.entries, IsName e.1.toList ∧ p e.2

def Reference.Named (r : Reference) : Prop := IsName r.target.toList

structure Field.Named (field : Field) : Prop where
  type : field.type.Named
  args : field.args.Named Reference.Named

def Fields.Named (fields : Fields) : Prop := Table.Named Field.Named fields

/-- The keys at every level are spelled as names, and so are the targets and the roots. -/
structure Config.Named (c : Config) : Prop where
  types : c.types.Named Fields.Named
  roots : ∀ name ∈ c.roots.names, IsName name.toList

section Schemas

variable {α β : Type}

theorem Table.named_byText {p : β → Prop} {f : α → β} (h : ∀ a, p (f a)) (t : Table Name α) :
    (t.map f).byText.Named p := by
  intro e he
  obtain ⟨d, hd, rfl⟩ := List.mem_map.mp he
  obtain ⟨b, -, rfl⟩ := List.mem_map.mp hd
  exact ⟨b.1.spelled, h b.2⟩

theorem TypeExpr.named_reference (t : TypeExpr) : t.reference.Named := t.name.spelled

theorem OutputField.named_flatten (f : OutputField) : f.flatten.Named where
  type := f.type.named_reference
  args := Table.named_byText TypeExpr.named_reference f.args

theorem Definition.named_of_fields? {d : Definition} {fields : Fields}
    (h : d.fields? = some fields) : fields.Named := by
  have houtput : ∀ fs : Table Name OutputField, Fields.Named (fs.map OutputField.flatten).byText :=
    Table.named_byText OutputField.named_flatten
  cases d with
  | object fs =>
    obtain rfl := Option.some.inj h
    exact houtput fs
  | interface fs =>
    obtain rfl := Option.some.inj h
    exact houtput fs
  | input fs =>
    obtain rfl := Option.some.inj h
    have hplain : ∀ t : TypeExpr, Field.Named ⟨t.reference, Table.empty⟩ := fun t =>
      ⟨t.named_reference, fun _ he => absurd he List.not_mem_nil⟩
    exact Table.named_byText hplain fs
  | enum => cases h
  | union => cases h
  | scalar => cases h

theorem Schema.named_flatten (s : Schema) : s.flatten.Named where
  types := by
    intro e he
    rw [entries_flatten, List.mem_filterMap] at he
    obtain ⟨d, -, hd⟩ := he
    obtain ⟨fields, hfields, rfl⟩ := Option.map_eq_some_iff.mp hd
    exact ⟨d.1.spelled, Definition.named_of_fields? (fields?_of_heldFields? hfields)⟩
  roots := by
    have hroots : s.flatten.roots.names = s.roots.names.map Name.text := Roots.names_map _ _
    intro name hname
    rw [hroots] at hname
    obtain ⟨n, -, rfl⟩ := List.mem_map.mp hname
    exact n.spelled

end Schemas

section Renamings

variable {α β : Type} {f : String → String}

theorem Table.Named.map {p : α → Prop} {q : β → Prop} {g : α → β} {t : Table String α}
    (ht : t.Named p) (h : ∀ a, p a → q (g a)) : (t.map g).Named q := by
  intro e he
  obtain ⟨d, hd, rfl⟩ := List.mem_map.mp he
  obtain ⟨hname, hvalue⟩ := ht d hd
  exact ⟨hname, h d.2 hvalue⟩

def KeepsNames (f : String → String) : Prop := ∀ name, IsName name.toList → IsName (f name).toList

theorem Reference.Named.mapTarget (hf : KeepsNames f) (r : Reference) (h : r.Named) :
    (r.mapTarget f).Named := hf r.target h

theorem Field.Named.mapTargets (hf : KeepsNames f) (field : Field) (h : field.Named) :
    (field.mapTargets f).Named where
  type := h.type.mapTarget hf
  args := h.args.map (Reference.Named.mapTarget hf)

theorem Fields.Named.mapTargets (hf : KeepsNames f) {fields : Fields} (h : fields.Named) :
    (fields.mapTargets f).Named := Table.Named.map h (Field.Named.mapTargets hf)

namespace Renaming

variable {r : Renaming} {c : Config}

theorem keepsNames_resolve (hr : ∀ name ∈ r.values, IsName name.toList) :
    KeepsNames r.resolve := by
  intro name hname
  by_cases hm : name ∈ r
  · exact hr _ (mem_values_iff.mpr ⟨_, mem_entries_resolve hm, rfl⟩)
  · rwa [resolve_of_notMem hm]

theorem named_rename (h : r.Applies c) (hr : ∀ name ∈ r.values, IsName name.toList)
    (hc : c.Named) : (r.rename c).config.Named where
  types := by
    have hresolve := keepsNames_resolve hr
    rintro ⟨name, fields⟩ he
    have hfound : (r.rename c).config.type? name = some fields := Table.get?_eq_some_iff.mpr he
    have hm : name ∈ (r.rename c).config.types := Table.mem_of_get?_eq_some hfound
    constructor
    · obtain ⟨old, hold, rfl⟩ := (mem_rename_iff h).mp hm
      obtain ⟨before, hbefore⟩ := Table.mem_iff_exists_get?.mp hold
      exact hresolve old (hc.types _ (Table.get?_eq_some_iff.mp hbefore)).1
    · obtain ⟨before, hbefore, hafter⟩ := type?_rename_of_mem h hm
      obtain rfl := Option.some.inj (hafter.symm.trans hfound)
      exact (hc.types _ (Table.get?_eq_some_iff.mp hbefore)).2.mapTargets hresolve
  roots := by
    intro name hname
    obtain ⟨k, hk⟩ := Roots.mem_names_iff.mp hname
    have hget : (r.renameRoots c.roots).get k = some name := hk
    rw [get_renameRoots] at hget
    split at hget
    · exact hc.roots name (Roots.mem_names_iff.mpr ⟨k, hget⟩)
    · obtain ⟨old, hold, rfl⟩ := Option.map_eq_some_iff.mp hget
      exact keepsNames_resolve hr old (hc.roots old (Roots.mem_names_iff.mpr ⟨k, hold⟩))

end Renaming

end Renamings

end TypeGraph
