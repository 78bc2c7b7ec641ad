import TypeGraph.Proofs.Outline.Reading
import TypeGraph.Proofs.Schema.Held
import TypeGraph.Proofs.Schema.Spelling
import Mathlib.Data.List.Find

/-! The outline of a schema, which spells every type out, and the configuration of the schema. The
outline can be read unless some type has a list in a list, and then it gives that configuration. -/

namespace TypeGraph

namespace Table

variable {α β γ : Type} {t : Table Name α}

def byText (t : Table Name α) : Table String α := t.rekey Name.text Name.text_inj

theorem map_byText (f : α → β) (t : Table Name α) : (t.map f).byText = t.byText.map f := by
  refine Table.ext ?_
  simp only [byText, rekey, map, mapWithKey, List.map_map, Function.comp_def]

@[simp]
theorem values_byText (t : Table Name α) : t.byText.values = t.values := by
  rw [values, byText, rekey, List.map_map]
  rfl

theorem not_isIndex_of_mem_byText : ∀ key ∈ t.byText, ¬ IsIndex key := by
  intro key hm
  obtain ⟨e, he, rfl⟩ := List.mem_map.mp hm
  obtain ⟨f, -, rfl⟩ := List.mem_map.mp he
  exact f.1.spelled.not_isIndex

@[simp]
theorem values_ofRecord_byText (t : Table Name α) :
    (ofRecord t.byText.entries).values = t.values := by
  have hentries : (ofRecord t.byText.entries).entries = t.byText.entries :=
    entries_ofRecord t.byText.nodup_keys not_isIndex_of_mem_byText
  rw [← values_byText, values, hentries, values]

@[simp]
theorem values_ofRecord_nil : (ofRecord ([] : List (String × α))).values = [] := by
  rw [ofRecord_nil]
  rfl

theorem alike_byText {R : α → β → Prop} (f : γ → α) (g : γ → β) {t : Table Name γ}
    (h : ∀ c ∈ t.values, R (f c) (g c)) :
    (ofRecord (t.map f).byText.entries).Alike R (t.map g).byText := by
  rw [map_byText, map_byText]
  refine alike_ofRecord_map f g not_isIndex_of_mem_byText ?_
  rwa [values_byText]

end Table

/-- A text spells one of the types, and a reference is what that type is flattened to. -/
def Spells (ts : List TypeExpr) (text : String) (r : Reference) : Prop :=
  ∃ t ∈ ts, text = t.render ∧ r = t.reference

theorem Spells.mono {ts us : List TypeExpr} (h : ts ⊆ us) (text : String) (r : Reference) :
    Spells ts text r → Spells us text r := by
  rintro ⟨t, ht, htext, hr⟩
  exact ⟨t, h ht, htext, hr⟩

namespace OutputField

def outline (f : OutputField) : FieldOutline :=
  ⟨f.type.render, (f.args.map TypeExpr.render).byText.entries⟩

theorem describes_outline (f : OutputField) :
    f.outline.Describes (Spells f.typeExprs) f.flatten where
  type := ⟨f.type, by simp [typeExprs], rfl, rfl⟩
  args := Table.alike_byText TypeExpr.render TypeExpr.reference fun t ht =>
    ⟨t, List.mem_append_left _ ht, rfl, rfl⟩

theorem texts_outline (f : OutputField) : f.outline.texts = f.typeExprs.map TypeExpr.render := by
  simp [FieldOutline.texts, outline, typeExprs]

end OutputField

namespace Definition

def outline : Definition → List (String × FieldOutline)
  | object fields | interface fields => (fields.map OutputField.outline).byText.entries
  | input fields => (fields.map fun t => FieldOutline.mk t.render []).byText.entries
  | enum | union | scalar => []

theorem describesAll_outputFields (fields : Table Name OutputField) :
    FieldOutline.DescribesAll (Spells (fields.values.flatMap OutputField.typeExprs))
      (fields.map OutputField.outline).byText.entries
      (fields.map OutputField.flatten).byText := by
  refine Table.alike_byText OutputField.outline OutputField.flatten fun f hf => ?_
  exact f.describes_outline.mono (Spells.mono fun t ht => List.mem_flatMap.mpr ⟨f, hf, ht⟩)

theorem describesAll_outline {d : Definition} {fields : Fields} (h : d.fields? = some fields) :
    FieldOutline.DescribesAll (Spells d.typeExprs) d.outline fields := by
  cases d with
  | object fs =>
    obtain rfl := Option.some.inj h
    exact describesAll_outputFields fs
  | interface fs =>
    obtain rfl := Option.some.inj h
    exact describesAll_outputFields fs
  | input fs =>
    obtain rfl := Option.some.inj h
    refine Table.alike_byText _ _ fun t ht => ⟨⟨t, ht, rfl, rfl⟩, ?_⟩
    exact Table.alike_ofRecord (fun key hm => absurd hm List.not_mem_nil) .nil
  | enum => cases h
  | union => cases h
  | scalar => cases h

theorem texts_outputFields (fields : Table Name OutputField) :
    (Table.ofRecord (fields.map OutputField.outline).byText.entries).values.flatMap
        FieldOutline.texts =
      (fields.values.flatMap OutputField.typeExprs).map TypeExpr.render := by
  rw [Table.values_ofRecord_byText, Table.values_map, List.flatMap_map, List.map_flatMap]
  simp only [OutputField.texts_outline]

theorem texts_outline (d : Definition) :
    (Table.ofRecord d.outline).values.flatMap FieldOutline.texts =
      d.typeExprs.map TypeExpr.render := by
  cases d with
  | object fs => exact texts_outputFields fs
  | interface fs => exact texts_outputFields fs
  | input fs =>
    have hplain : ∀ t : TypeExpr, (FieldOutline.mk t.render []).texts = [t.render] := by
      simp [FieldOutline.texts]
    simp only [outline, Table.values_ofRecord_byText, Table.values_map, List.flatMap_map, hplain,
      typeExprs]
    exact List.flatMap_pure_eq_map _ _
  | enum => simp [outline, typeExprs]
  | union => simp [outline, typeExprs]
  | scalar => simp [outline, typeExprs]

end Definition

namespace Schema

def outline (s : Schema) : Outline :=
  ⟨s.roots.map Name.text, s.held.map fun e => (e.1.text, e.2.outline)⟩

theorem not_isIndex_of_mem_held (s : Schema) :
    ∀ key ∈ s.held.map fun e => e.1.text, ¬ Table.IsIndex key := by
  intro key hm
  obtain ⟨e, -, rfl⟩ := List.mem_map.mp hm
  exact e.1.spelled.not_isIndex

theorem describes_outline (s : Schema) : s.outline.Describes (Spells s.heldTypes) s.flatten where
  roots := rfl
  types := by
    have hnames : ∀ key ∈ s.flatten.types, ¬ Table.IsIndex key := fun key hm =>
      s.not_isIndex_of_mem_held key (mem_types_flatten.mp hm)
    refine Table.alike_ofRecord hnames ?_
    have hheld := (List.forall₂_and_left _ _).mpr ⟨fun e he => he, s.forall₂_held⟩
    rw [outline, List.forall₂_map_left_iff]
    refine hheld.imp ?_
    rintro e held ⟨he, hname, hfields⟩
    have htypes : ∀ t ∈ e.2.typeExprs, t ∈ s.heldTypes := fun t ht =>
      List.mem_flatMap.mpr ⟨e, he, ht⟩
    have hdescribed := e.2.describesAll_outline hfields
    exact ⟨hname, hdescribed.mono fun _ _ hfield => hfield.mono (Spells.mono htypes)⟩

theorem nodup_held (s : Schema) : (s.held.map fun e => e.1.text).Nodup := by
  rw [← keys_flatten]
  exact s.flatten.types.nodup_keys

theorem texts_outline (s : Schema) : s.outline.texts = s.heldTypes.map TypeExpr.render := by
  have hkeys : s.outline.types.map Prod.fst = s.held.map fun e => e.1.text := by
    rw [outline, List.map_map]
    rfl
  have hentries : (Table.ofRecord s.outline.types).entries = s.outline.types := by
    refine Table.entries_ofRecord ?_ ?_
    · rw [hkeys]
      exact s.nodup_held
    · rw [hkeys]
      exact s.not_isIndex_of_mem_held
  rw [Outline.texts, Table.values, hentries, outline, List.map_map, List.flatMap_map, heldTypes,
    List.map_flatMap]
  simp only [Function.comp_apply, Definition.texts_outline]

section Reading

variable {s : Schema}

theorem ofOutline_eq_flatten (hw : ∀ t ∈ s.heldTypes, t.WellFormed)
    (hd : ∀ t ∈ s.heldTypes, t.listDepth ≤ 1) : Config.ofOutline s.outline = .ok s.flatten := by
  refine Config.ofOutline_eq_ok_iff.mpr (s.describes_outline.mono ?_)
  rintro text r ⟨t, ht, rfl, rfl⟩
  exact Reference.reads_iff.mpr (TypeExpr.parse?_render_of_flat (hw t ht) (hd t ht))

theorem ofOutline_eq_error (hw : ∀ t ∈ s.heldTypes, t.WellFormed) {t : TypeExpr}
    (ht : s.heldTypes.find? (fun t => 1 < t.listDepth) = some t) :
    Config.ofOutline s.outline = .error ⟨t.render⟩ := by
  have hfails : ∀ u ∈ s.heldTypes,
      decide (Reference.parse? u.render = none) = decide (1 < u.listDepth) := by
    intro u hu
    by_cases hd : 1 < u.listDepth
    · simp [hd, TypeExpr.parse?_render_of_nested hd]
    · simp [hd, TypeExpr.parse?_render_of_flat (hw u hu) (Nat.le_of_not_lt hd)]
  rw [Config.ofOutline_eq_error_iff, texts_outline, List.find?_map]
  have hfirst := (List.find?_congr hfails).trans ht
  exact congrArg (Option.map TypeExpr.render) hfirst

/-- The outline of a schema is read as its configuration if no type has a list in a list. Otherwise
the first type that has one is the error, while the schema has its configuration all the same. -/
theorem outline_reads_flatten (s : Schema) (hw : ∀ t ∈ s.heldTypes, t.WellFormed) :
    s.outline.Describes (Spells s.heldTypes) s.flatten ∧
    ((∀ t ∈ s.heldTypes, t.listDepth ≤ 1) → Config.ofOutline s.outline = .ok s.flatten) ∧
    ((∃ t ∈ s.heldTypes, 1 < t.listDepth) →
      ∃ t, s.heldTypes.find? (fun t => 1 < t.listDepth) = some t ∧
        Config.ofOutline s.outline = .error ⟨t.render⟩) := by
  refine ⟨s.describes_outline, ofOutline_eq_flatten hw, ?_⟩
  rintro ⟨u, hu, hd⟩
  have hsome : (s.heldTypes.find? fun t => 1 < t.listDepth).isSome :=
    List.find?_isSome.mpr ⟨u, hu, decide_eq_true hd⟩
  obtain ⟨t, ht⟩ := Option.isSome_iff_exists.mp hsome
  exact ⟨t, ht, ofOutline_eq_error hw ht⟩

end Reading

section Samples

open Standard

def shelf : Schema :=
  ⟨(Table.ofList [
    (ident "Node", .interface (Table.ofList [name])),
    (ident "Book", .object (Table.ofList [
      name,
      plain (ident "number") (.named (ident "Isbn")),
      (ident "sequels", ⟨full (.named (ident "Book")),
        Table.ofList [(ident "by", .nonNull (.named (ident "Filter"))),
          (ident "genres", maybe (.named (ident "Genre")))]⟩)])),
    (ident "Isbn", .scalar),
    (ident "Filter", .input (Table.ofList [(ident "words", .list string)])),
    (ident "Genre", .enum),
    (ident "Item", .union)]).insertAll standardTypes.entries,
    { query := some (ident "Book"), mutation := some (ident "Item") }⟩

def grid : Schema :=
  ⟨Table.ofList [(ident "Grid", .object (Table.ofList [
    name, plain (ident "cells") (full (maybe string))]))], {}⟩

theorem outline_reads_flatten_shelf :
    (∀ t ∈ shelf.heldTypes, t.WellFormed) ∧ (∀ t ∈ shelf.heldTypes, t.listDepth ≤ 1) ∧
    Config.ofOutline shelf.outline = .ok shelf.flatten ∧
    (∀ t ∈ grid.heldTypes, t.WellFormed) ∧
    Config.ofOutline grid.outline = .error ⟨"[[String!]!]!"⟩ := by
  have hshelf : ∀ t ∈ shelf.heldTypes, t.WellFormed := by decide
  have hflat : ∀ t ∈ shelf.heldTypes, t.listDepth ≤ 1 := by decide
  have hgrid : ∀ t ∈ grid.heldTypes, t.WellFormed := by decide
  have hnested : ∃ t ∈ grid.heldTypes, 1 < t.listDepth := by decide
  obtain ⟨t, ht, herror⟩ := (outline_reads_flatten grid hgrid).2.2 hnested
  have hcells : t = full (maybe string) := Option.some.inj (ht.symm.trans (by decide))
  rw [hcells] at herror
  exact ⟨hshelf, hflat, (outline_reads_flatten shelf hshelf).2.1 hflat, hgrid, herror⟩

end Samples

end Schema
end TypeGraph
