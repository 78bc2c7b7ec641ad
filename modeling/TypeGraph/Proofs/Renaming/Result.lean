import TypeGraph.Renaming.Apply
import TypeGraph.Proofs.Renaming.Seats
import TypeGraph.Proofs.Validation.Causes

/-! When a renaming succeeds, and the types of its result: their names, where their fields
come from, and their order. -/

namespace TypeGraph

namespace Renaming

open Arrangement

def Applies (r : Renaming) (c : Config) : Prop := ∀ old ∈ r, old ∈ c.types

variable {r : Renaming} {c : Config} {out : Renamed} {name old : String}

theorem causes_check_eq_nil_iff : (r.check c).causes = [] ↔ r.Applies c := by
  rw [check, Validation.causes_fromList_eq_nil_iff]
  refine forall₂_congr fun old _ => ?_
  by_cases h : old ∈ c.types <;>
    simp [h, Validation.causes, Validation.fail, Failure.single]

theorem apply_eq_success_iff : r.apply c = .success out ↔ r.Applies c ∧ r.rename c = out := by
  rw [← causes_check_eq_nil_iff, apply]
  cases r.check c with
  | success u => simp [Validation.map, Validation.causes]
  | failure e => simp [Validation.map, Validation.causes, e.causes_ne_nil]

theorem isSuccess_apply_iff : (r.apply c).isSuccess = true ↔ r.Applies c := by
  rw [Validation.isSuccess_iff, apply, Validation.causes_map, causes_check_eq_nil_iff]

theorem Applies.fst_mem (h : r.Applies c) : ∀ p ∈ r.entries, p.1 ∈ c.types :=
  fun p hp => h p.1 (List.mem_map_of_mem hp)

theorem Applies.seated (h : r.Applies c) :
    Seated c.types r r.entries (Arrangement.of c.types r).placed := seated_placeAll h.fst_mem

theorem Applies.apart (h : r.Applies c) :
    Apart c.types.size (Arrangement.of c.types r).placed := h.seated.apart fun _ hp => hp

theorem type?_rename (r : Renaming) (c : Config) (name : String) :
    (r.rename c).config.type? name =
      (((Arrangement.of c.types r).types c.types.size).get? name).map
        (Fields.mapTargets r.resolve) :=
  Table.get?_map _ _ _

theorem mem_rename_iff_placed (h : r.Applies c) :
    name ∈ (r.rename c).config.types ↔ name ∈ (Arrangement.of c.types r).placed :=
  Table.mem_map_iff.trans (mem_types_iff h.apart name)

theorem mem_rename_iff_keeps (h : r.Applies c) :
    name ∈ (r.rename c).config.types ↔ r.Keeps c.types name ∨ ∃ p ∈ r.entries, p.2 = name := by
  rw [mem_rename_iff_placed h, h.seated.mem_iff]

theorem mem_rename_iff (h : r.Applies c) :
    name ∈ (r.rename c).config.types ↔ ∃ old ∈ c.types, r.resolve old = name := by
  rw [mem_rename_iff_keeps h]
  constructor
  · rintro (⟨hm, hr⟩ | ⟨p, hp, rfl⟩)
    · exact ⟨name, hm, resolve_of_notMem hr⟩
    · exact ⟨p.1, h.fst_mem p hp, resolve_of_mem hp⟩
  · rintro ⟨old, hm, rfl⟩
    by_cases hr : old ∈ r
    · exact .inr ⟨_, mem_entries_resolve hr, rfl⟩
    · rw [resolve_of_notMem hr]
      exact .inl ⟨hm, hr⟩

theorem exists_firstOld?_of_not_keeps (h : r.Applies c) (hm : name ∈ (r.rename c).config.types)
    (hk : ¬ r.Keeps c.types name) : ∃ old, firstOld? r.entries name = some old :=
  h.seated.exists_firstOld?_of_not_keeps ((mem_rename_iff_placed h).mp hm) hk

theorem keeps_of_lastOld?_eq_none (h : r.Applies c) (hm : name ∈ (r.rename c).config.types)
    (hlast : lastOld? r.entries name = none) : r.Keeps c.types name :=
  h.seated.keeps_of_lastOld?_eq_none ((mem_rename_iff_placed h).mp hm) hlast

theorem resolve_mem_rename (h : r.Applies c) (hm : old ∈ c.types) :
    r.resolve old ∈ (r.rename c).config.types := (mem_rename_iff h).mpr ⟨old, hm, rfl⟩

theorem resolve_bearer (h : r.Applies c) (hm : name ∈ (r.rename c).config.types) :
    r.resolve (bearer r.entries name) = name :=
  h.seated.resolve_bearer (fun _ hp => hp) ((mem_rename_iff_placed h).mp hm)

theorem resolve_holder (h : r.Applies c) (hm : name ∈ (r.rename c).config.types) :
    r.resolve (holder c.types r r.entries name) = name :=
  h.seated.resolve_holder (fun _ hp => hp) ((mem_rename_iff_placed h).mp hm)

theorem type?_rename_of_mem (h : r.Applies c) (hm : name ∈ (r.rename c).config.types) :
    ∃ fields, c.type? (bearer r.entries name) = some fields ∧
      (r.rename c).config.type? name = some (fields.mapTargets r.resolve) := by
  obtain ⟨seat, hs⟩ := Table.mem_iff_exists_get?.mp ((mem_rename_iff_placed h).mp hm)
  refine ⟨seat.fields, ?_, ?_⟩
  · rw [← h.seated.origin hs]
    exact h.seated.fields hs
  · rw [type?_rename, get?_types h.apart, hs]
    rfl

theorem bearer_mem (h : r.Applies c) (hm : name ∈ (r.rename c).config.types) :
    bearer r.entries name ∈ c.types := by
  obtain ⟨fields, hf, -⟩ := type?_rename_of_mem h hm
  exact Table.mem_of_get?_eq_some hf

theorem slotOf?_placed (h : r.Applies c) (hm : name ∈ (r.rename c).config.types) :
    slotOf? (Arrangement.of c.types r).placed name =
      c.types.slot? (holder c.types r r.entries name) := by
  obtain ⟨seat, hs⟩ := Table.mem_iff_exists_get?.mp ((mem_rename_iff_placed h).mp hm)
  rw [slotOf?, hs, h.seated.slot hs]
  rfl

theorem pairwise_keys_rename (h : r.Applies c) :
    (r.rename c).config.types.keys.Pairwise
      (Table.Earlier fun name => c.types.slot? (holder c.types r r.entries name)) := by
  have hkeys : (r.rename c).config.types.keys =
      ((Arrangement.of c.types r).types c.types.size).keys := Table.keys_map _ _
  have hpair := pairwise_keys_types h.apart
  rw [← hkeys] at hpair
  refine hpair.imp_of_mem ?_
  rintro name name' hm hm' ⟨i, j, hi, hj, hij⟩
  rw [slotOf?_placed h hm] at hi
  rw [slotOf?_placed h hm'] at hj
  exact ⟨i, j, hi, hj, hij⟩

end Renaming
end TypeGraph
