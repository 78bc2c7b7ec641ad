import TypeGraph.Proofs.Renaming.Order
import TypeGraph.Proofs.Renaming.Reordered

/-! What becomes of the roots under a renaming. Every root is looked up once, in the input, so
neither the order of the pairs nor what they write elsewhere makes a difference. -/

namespace TypeGraph.Renaming

variable {r s : Renaming} {c : Config} {out : Renamed} {before after : Roots String}

structure RootsRenamed (r : Renaming) (before after : Roots String) : Prop where
  unset : ∀ k, before.get k = none → after.get k = none
  shared : ∀ k, ∀ j ∈ k.before, before.get j = before.get k → after.get k = before.get k
  resolved : ∀ k name, before.get k = some name → (∀ j ∈ k.before, before.get j ≠ some name) →
    after.get k = some (r.resolve name)

theorem rootsRenamed (r : Renaming) (roots : Roots String) :
    r.RootsRenamed roots (r.renameRoots roots) where
  unset k hk := by
    rw [get_renameRoots, hk, Option.map_none, ite_self]
  shared k j hj he := by
    rw [get_renameRoots, if_pos ⟨j, hj, he⟩]
  resolved k name hk hfirst := by
    have hs : ¬ ∃ j ∈ k.before, roots.get j = roots.get k := by
      rintro ⟨j, hj, he⟩
      exact hfirst j hj (he.trans hk)
    rw [get_renameRoots, if_neg hs, hk, Option.map_some]

theorem names_renameRoots (r : Renaming) {roots : Roots String} (hn : roots.names.Nodup) :
    (r.renameRoots roots).names = roots.names.map r.resolve := by
  rw [renameRoots_of_nodup r hn, Roots.names_map]

/-- A kind of operation without a root gets none, one that shares the root of an earlier kind
keeps it, and any other has its root resolved, whatever the order of the pairs. So different roots
are all resolved and stay in their order. -/
theorem roots_of_apply (h : r.apply c = .success out) :
    r.RootsRenamed c.roots out.config.roots ∧
    (∀ s, r.Reorders s → ∃ out', s.apply c = .success out' ∧
      out'.config.roots = out.config.roots) ∧
    (c.roots.names.Nodup → out.config.roots.names = c.roots.names.map r.resolve) := by
  obtain ⟨ha, rfl⟩ := apply_eq_success_iff.mp h
  refine ⟨rootsRenamed r c.roots, fun s hs => ?_, names_renameRoots r⟩
  have has : s.Applies c := hs.applies_iff.mp ha
  exact ⟨s.rename c, apply_eq_success_iff.mpr ⟨has, rfl⟩, (hs.renameRoots_eq c.roots).symm⟩

def rootedRing : Config :=
  { ring with roots := { query := some "C", mutation := some "A", subscription := some "B" } }

theorem roots_of_apply_rootedRing :
    (ofPairs cycle).apply rootedRing = .success ((ofPairs cycle).rename rootedRing) ∧
    (ofPairs cycle).RootsRenamed rootedRing.roots
      ((ofPairs cycle).rename rootedRing).config.roots ∧
    (ofPairs cycle).Reorders (ofPairs cycle.reverse) ∧
    (∃ out, (ofPairs cycle.reverse).apply rootedRing = .success out ∧
      out.config.roots = ((ofPairs cycle).rename rootedRing).config.roots) ∧
    rootedRing.roots.names.Nodup ∧
    ((ofPairs cycle).rename rootedRing).config.roots.names = ["B", "C", "A"] := by
  have happly : (ofPairs cycle).apply rootedRing =
      .success ((ofPairs cycle).rename rootedRing) := by decide
  have hturned : (ofPairs cycle).Reorders (ofPairs cycle.reverse) :=
    (List.reverse_perm cycle).symm
  have hn : rootedRing.roots.names.Nodup := by decide
  obtain ⟨hroots, horder, hnames⟩ := roots_of_apply happly
  exact ⟨happly, hroots, hturned, horder _ hturned, hn, (hnames hn).trans (by decide)⟩

end TypeGraph.Renaming
