import TypeGraph.Proofs.Renaming.FollowedBy

/-! Undoing a renaming. The pairs turned round bring every name back, if the renaming merged no
two of them. -/

namespace TypeGraph.Renaming

variable {r s : Renaming} {c : Config} {first : Renamed} {name mid old new : String}

theorem nodup_values_of_quiet (h : r.Applies c) (hq : (r.rename c).collisions = []) :
    r.values.Nodup := by
  refine List.Nodup.map_on ?_ r.nodup_keys.of_map
  rintro ⟨old, new⟩ hp ⟨old', new'⟩ hp' he
  have hr : r.resolve old = r.resolve old' := by
    rw [resolve_of_mem hp, resolve_of_mem hp']
    exact he
  rw [Prod.mk.injEq]
  exact ⟨resolve_inj h hq (h.fst_mem _ hp) (h.fst_mem _ hp') hr, he⟩

/-- The renaming `s` has the pairs of `r` turned round, and `r` can be made first. -/
structure Undoes (c : Config) (r s : Renaming) : Prop where
  first : r.Applies c
  quiet : (r.rename c).collisions = []
  fresh : ∀ new ∈ r.values, c.Mentions new → new ∈ c.types
  swapped : s.entries.Perm (r.entries.map Prod.swap)

namespace Undoes

theorem mem_entries_iff (h : Undoes c r s) : (new, old) ∈ s.entries ↔ (old, new) ∈ r.entries := by
  rw [h.swapped.mem_iff, List.mem_map]
  constructor
  · rintro ⟨p, hp, he⟩
    rwa [← Prod.swap_swap p, he] at hp
  · exact fun hp => ⟨_, hp, rfl⟩

theorem mem_iff (h : Undoes c r s) : name ∈ s ↔ name ∈ r.values := by
  rw [mem_values_iff, Table.mem_iff, List.mem_map]
  constructor
  · rintro ⟨⟨new, old⟩, hp, rfl⟩
    exact ⟨_, h.mem_entries_iff.mp hp, rfl⟩
  · rintro ⟨⟨old, new⟩, hp, rfl⟩
    exact ⟨_, h.mem_entries_iff.mpr hp, rfl⟩

theorem second (h : Undoes c r s) : s.Applies (r.rename c).config := by
  intro new hm
  obtain ⟨p, hp, rfl⟩ := mem_values_iff.mp (h.mem_iff.mp hm)
  exact (mem_rename_iff h.first).mpr ⟨p.1, h.first.fst_mem p hp, resolve_of_mem hp⟩

theorem inTurn (h : Undoes c r s) : InTurn c r s := ⟨h.first, h.second, h.quiet, h.fresh⟩

theorem resolve_resolve (h : Undoes c r s) (ho : c.Occurs name) :
    s.resolve (r.resolve name) = name := by
  by_cases hr : name ∈ r
  · exact resolve_of_mem (h.mem_entries_iff.mpr (mem_entries_resolve hr))
  · rw [resolve_of_notMem hr]
    refine resolve_of_notMem fun hs => hr ?_
    -- A pair that leads to the name could only start at the name itself.
    obtain ⟨p, hp, rfl⟩ := mem_values_iff.mp (h.mem_iff.mp hs)
    have hold : p.1 ∈ r := List.mem_map_of_mem hp
    have hsame : r.resolve p.1 = r.resolve p.2 := by rw [resolve_of_mem hp, resolve_of_notMem hr]
    exact h.inTurn.eq_of_resolve_eq (.inl (h.first _ hold)) ho hsame ▸ hold

theorem eq_of_source (h : Undoes c r s) (ho : old ∈ c.types) (hr : r.resolve old = mid)
    (hs : s.resolve mid = name) : name = old := by
  rw [← hs, ← hr, h.resolve_resolve (.inl ho)]

theorem factors (h : Undoes c r s) : Factors c r s Table.empty where
  first := h.first
  second := h.second
  whole := applies_empty c
  resolve name ho := (h.resolve_resolve (ho.imp_right .inl)).symm
  bearer name hm := by
    have hmid := bearer_mem h.second hm
    exact h.eq_of_source (bearer_mem h.first hmid) (resolve_bearer h.first hmid)
      (resolve_bearer h.second hm)
  holder name hm := by
    have hmid := holder_mem h.second hm
    rw [holder_empty]
    exact h.eq_of_source (holder_mem h.first hmid) (resolve_holder h.first hmid)
      (resolve_holder h.second hm)

theorem types_eq (h : Undoes c r s) : (s.rename (r.rename c).config).config.types = c.types := by
  rw [← h.factors.types_eq, rename_empty]

theorem renameRoots_eq (h : Undoes c r s) (hn : c.roots.names.Nodup) :
    s.renameRoots (r.renameRoots c.roots) = c.roots := by
  rw [renameRoots_of_nodup r hn, renameRoots_of_nodup s (h.inTurn.nodup_roots hn), Roots.map_map]
  refine (Roots.map_congr fun name hm => ?_).trans (Roots.map_id c.roots)
  exact h.resolve_resolve (.inr (.inr hm))

theorem config_eq (h : Undoes c r s) (hn : c.roots.names.Nodup) :
    (s.rename (r.rename c).config).config = c := Config.ext h.types_eq (h.renameRoots_eq hn)

theorem collisions_eq_nil (h : Undoes c r s) :
    (s.rename (r.rename c).config).collisions = [] := by
  refine collisions_eq_nil_of_inj h.second fun mid hm mid' hm' he => ?_
  obtain ⟨old, ho, rfl⟩ := (mem_rename_iff h.first).mp hm
  obtain ⟨old', ho', rfl⟩ := (mem_rename_iff h.first).mp hm'
  rw [h.resolve_resolve (.inl ho), h.resolve_resolve (.inl ho')] at he
  rw [he]

end Undoes

/-- A renaming that tells nothing and gives no type a name that was used without one is undone by
its pairs turned round, in any order, and that tells nothing either. -/
theorem apply_swapped {back : List (String × String)} (hn : c.roots.names.Nodup)
    (hr : r.apply c = .success first) (hq : first.notices = [])
    (hfresh : ∀ new ∈ r.values, c.Mentions new → new ∈ c.types)
    (hback : back.Perm (r.entries.map Prod.swap)) :
    ∃ out, (ofPairs back).apply first.config = .success out ∧ out.notices = [] ∧
      out.config = c := by
  obtain ⟨ha, rfl⟩ := apply_eq_success_iff.mp hr
  have hquiet := notices_eq_nil_iff.mp hq
  have hkeys : (back.map Prod.fst).Nodup := by
    have hnews : ((r.entries.map Prod.swap).map Prod.fst).Nodup := by
      rw [List.map_map]
      exact nodup_values_of_quiet ha hquiet
    exact (hback.map Prod.fst).nodup_iff.mpr hnews
  have h : Undoes c r (ofPairs back) := by
    refine ⟨ha, hquiet, hfresh, ?_⟩
    rwa [ofPairs, Table.entries_ofList hkeys]
  exact ⟨_, apply_eq_success_iff.mpr ⟨h.second, rfl⟩, notices_eq_nil_iff.mpr h.collisions_eq_nil,
    h.config_eq hn⟩

theorem apply_swapped_ring :
    twoRootRing.roots.names.Nodup ∧
    (ofPairs cycle).apply twoRootRing = .success ((ofPairs cycle).rename twoRootRing) ∧
    ((ofPairs cycle).rename twoRootRing).notices = [] ∧
    (∀ new ∈ (ofPairs cycle).values, twoRootRing.Mentions new → new ∈ twoRootRing.types) ∧
    [("B", "C"), ("A", "B"), ("C", "A")].Perm ((ofPairs cycle).entries.map Prod.swap) ∧
    ∃ out, (ofPairs [("B", "C"), ("A", "B"), ("C", "A")]).apply
        ((ofPairs cycle).rename twoRootRing).config = .success out ∧
      out.notices = [] ∧ out.config = twoRootRing := by
  have hroots : twoRootRing.roots.names.Nodup := by decide
  have hcycle : (ofPairs cycle).apply twoRootRing =
      .success ((ofPairs cycle).rename twoRootRing) := by decide
  have hquiet : ((ofPairs cycle).rename twoRootRing).notices = [] := by decide
  have htypes : ∀ new ∈ (ofPairs cycle).values, new ∈ twoRootRing.types := by decide
  have hback : [("B", "C"), ("A", "B"), ("C", "A")].Perm
      ((ofPairs cycle).entries.map Prod.swap) := by decide
  exact ⟨hroots, hcycle, hquiet, fun new hm _ => htypes new hm, hback,
    apply_swapped hroots hcycle hquiet (fun new hm _ => htypes new hm) hback⟩

end TypeGraph.Renaming
