import TypeGraph.Proofs.Place
import TypeGraph.Proofs.Renaming.Order

/-! When two renamings in turn leave the types that one renaming leaves. It is enough that names,
fields and slots go back to the same types of the input. One of them may be the renaming without
pairs, which changes nothing. -/

namespace TypeGraph.Renaming

variable {r s t : Renaming} {c : Config} {name : String}

/-- One renaming `t` that goes back to the same types as `r` and then `s` do. -/
structure Factors (c : Config) (r s t : Renaming) : Prop where
  first : r.Applies c
  second : s.Applies (r.rename c).config
  whole : t.Applies c
  resolve : ∀ name, name ∈ c.types ∨ c.Refers name → t.resolve name = s.resolve (r.resolve name)
  bearer : ∀ name ∈ (s.rename (r.rename c).config).config.types,
    bearer t.entries name = bearer r.entries (bearer s.entries name)
  holder : ∀ name ∈ (s.rename (r.rename c).config).config.types,
    holder c.types t t.entries name =
      holder c.types r r.entries (holder (r.rename c).config.types s s.entries name)

theorem mapTargets_eq_of_type? {f g : String → String} {fields : Fields}
    (hf : c.type? name = some fields) (h : ∀ target, c.Refers target → f target = g target) :
    fields.mapTargets f = fields.mapTargets g := by
  refine Fields.mapTargets_congr fun fieldName field hfield arg reference ha => ?_
  have href : c.reference? ⟨name, fieldName, arg⟩ = some reference := by
    rw [Config.reference?, Config.field?, hf, Option.bind_some, hfield, Option.bind_some, ha]
  exact h _ ⟨_, reference, href, rfl⟩

namespace Factors

theorem mem_iff (h : Factors c r s t) :
    name ∈ (t.rename c).config.types ↔ name ∈ (s.rename (r.rename c).config).config.types := by
  rw [mem_rename_iff h.whole, mem_rename_iff h.second]
  constructor
  · rintro ⟨old, ho, rfl⟩
    exact ⟨_, resolve_mem_rename h.first ho, (h.resolve old (.inl ho)).symm⟩
  · rintro ⟨mid, hm, rfl⟩
    obtain ⟨old, ho, rfl⟩ := (mem_rename_iff h.first).mp hm
    exact ⟨old, ho, h.resolve old (.inl ho)⟩

theorem keys_eq (h : Factors c r s t) :
    (t.rename c).config.types.keys = (s.rename (r.rename c).config).config.types.keys := by
  refine Table.eq_of_pairwise_earlier (pairwise_keys_rename h.whole) ?_ fun _ => h.mem_iff
  refine (pairwise_keys_rename h.second).imp_of_mem fun {name name'} hm hm' hearlier => ?_
  -- Slots of the intermediate types are in the order of the slots of the input.
  obtain ⟨i, j, hi, hj, hij⟩ := Table.rel_of_earlier (pairwise_keys_rename h.first) hearlier
  refine ⟨i, j, ?_, ?_, hij⟩
  · exact (congrArg c.types.slot? (h.holder name hm)).trans hi
  · exact (congrArg c.types.slot? (h.holder name' hm')).trans hj

theorem get?_eq (h : Factors c r s t) (hm : name ∈ (t.rename c).config.types) :
    (t.rename c).config.types.get? name =
      (s.rename (r.rename c).config).config.types.get? name := by
  have hm' := h.mem_iff.mp hm
  obtain ⟨whole, hw, hw'⟩ := type?_rename_of_mem h.whole hm
  obtain ⟨mid, hmid, hout⟩ := type?_rename_of_mem h.second hm'
  obtain ⟨fields, hf, hf'⟩ := type?_rename_of_mem h.first (bearer_mem h.second hm')
  have hsame : whole = fields := by
    rw [h.bearer name hm', hf] at hw
    exact (Option.some.inj hw).symm
  have hmiddle : mid = fields.mapTargets r.resolve := Option.some.inj (hmid.symm.trans hf')
  have htargets : fields.mapTargets t.resolve = fields.mapTargets (s.resolve ∘ r.resolve) :=
    mapTargets_eq_of_type? hf fun target ht => h.resolve target (.inr ht)
  calc (t.rename c).config.types.get? name = some (fields.mapTargets t.resolve) := hsame ▸ hw'
    _ = some ((fields.mapTargets r.resolve).mapTargets s.resolve) := by
      simp [htargets]
    _ = (s.rename (r.rename c).config).config.types.get? name := by
      rw [← hmiddle]
      exact hout.symm

theorem types_eq (h : Factors c r s t) :
    (t.rename c).config.types = (s.rename (r.rename c).config).config.types :=
  Table.eq_of_keys_of_get? h.keys_eq fun _ hm => h.get?_eq hm

end Factors

section Empty

@[simp]
theorem resolve_empty (name : String) : resolve Table.empty name = name := rfl

@[simp]
theorem bearer_empty (name : String) : bearer (Table.empty : Renaming).entries name = name := rfl

@[simp]
theorem holder_empty (types : Table String Fields) (name : String) :
    holder types Table.empty (Table.empty : Renaming).entries name = name :=
  ite_self name

theorem applies_empty (c : Config) : Applies Table.empty c :=
  fun _ hm => absurd hm List.not_mem_nil

@[simp]
theorem rename_empty (c : Config) : (rename Table.empty c).config = c := by
  have hid : resolve Table.empty = id := funext resolve_empty
  have hkeys : (rename Table.empty c).config.types.keys = c.types.keys := by
    have hmap : c.types.keys.map (resolve Table.empty) = c.types.keys := by rw [hid, List.map_id]
    rw [keys_rename_of_nodup (applies_empty c) (hmap.symm ▸ c.types.nodup_keys), hmap]
  refine Config.ext (Table.eq_of_keys_of_get? hkeys fun name hm => ?_) rfl
  obtain ⟨fields, hf, hf'⟩ := type?_rename_of_mem (applies_empty c) hm
  rw [hid, Fields.mapTargets_id] at hf'
  exact hf'.trans hf.symm

end Empty

end TypeGraph.Renaming
