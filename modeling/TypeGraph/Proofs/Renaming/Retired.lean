import TypeGraph.Proofs.Renaming.Dangling
import TypeGraph.Proofs.Renaming.Roots

/-! Names that a renaming takes away from every type. They are left nowhere in the result but
at the root of a kind of operation that an earlier kind shares. -/

namespace TypeGraph.Renaming

variable {r : Renaming} {c : Config} {out : Renamed} {old name : String}

theorem resolve_ne_of_retired (ho : old ∈ r) (hn : old ∉ r.values) (name : String) :
    r.resolve name ≠ old := by
  intro he
  obtain ⟨rfl, hm⟩ := (resolve_eq_iff hn).mp he
  exact hm ho

theorem get_renameRoots_of_retired (ho : old ∈ r) (hn : old ∉ r.values) (roots : Roots String)
    (k : Operation) :
    (r.renameRoots roots).get k = some old ↔
      roots.get k = some old ∧ ∃ j ∈ k.before, roots.get j = some old := by
  rw [get_renameRoots]
  by_cases hs : ∃ j ∈ k.before, roots.get j = roots.get k
  · rw [if_pos hs]
    refine ⟨fun hk => ⟨hk, ?_⟩, And.left⟩
    rwa [hk] at hs
  · rw [if_neg hs]
    constructor
    · intro hk
      obtain ⟨name, -, hname⟩ := Option.map_eq_some_iff.mp hk
      exact absurd hname (resolve_ne_of_retired ho hn name)
    · rintro ⟨hk, j, hj, he⟩
      exact absurd ⟨j, hj, he.trans hk.symm⟩ hs

/-- An old name that is no new name is no type of the result and no reference refers to it. It
is a root there only where an earlier kind of operation started at the same type. -/
theorem retired_name (h : r.apply c = .success out) (ho : old ∈ r) (hn : old ∉ r.values) :
    old ∉ out.config.types ∧ ¬ out.config.Refers old ∧
    ∀ k, out.config.roots.get k = some old ↔
      c.roots.get k = some old ∧ ∃ j ∈ k.before, c.roots.get j = some old := by
  obtain ⟨ha, rfl⟩ := apply_eq_success_iff.mp h
  refine ⟨fun hm => ?_, ?_, get_renameRoots_of_retired ho hn c.roots⟩
  · obtain ⟨name, -, hname⟩ := (mem_rename_iff ha).mp hm
    exact resolve_ne_of_retired ho hn name hname
  · rintro ⟨p, reference, hp, rfl⟩
    obtain ⟨before, -, ht⟩ := exists_of_reference?_rename ha hp
    exact resolve_ne_of_retired ho hn before.target ht

theorem retired_name_sharedRing :
    (ofPairs chain).apply sharedRing = .success ((ofPairs chain).rename sharedRing) ∧
    "A" ∈ ofPairs chain ∧ "A" ∉ (ofPairs chain).values ∧
    "A" ∉ ((ofPairs chain).rename sharedRing).config.types ∧
    ¬ ((ofPairs chain).rename sharedRing).config.Refers "A" ∧
    ∀ k, ((ofPairs chain).rename sharedRing).config.roots.get k = some "A" ↔
      sharedRing.roots.get k = some "A" ∧ ∃ j ∈ k.before, sharedRing.roots.get j = some "A" :=
  ⟨by decide, by decide, by decide,
    retired_name (r := ofPairs chain) (c := sharedRing) rfl (by decide) (by decide)⟩

theorem shared_root_keeps_retired_name :
    ¬ ∀ (r : Renaming) (c : Config) (out : Renamed), r.apply c = .success out →
      ∀ old ∈ r, old ∉ r.values →
        old ∉ out.config.types ∧ ¬ out.config.Refers old ∧
          ∀ k, out.config.roots.get k ≠ some old := by
  intro h
  obtain ⟨-, -, hroots⟩ := h (ofPairs [("A", "D")]) sharedRing
    ((ofPairs [("A", "D")]).rename sharedRing) (by decide) "A" (by decide) (by decide)
  exact hroots .mutation (by decide)

end TypeGraph.Renaming
