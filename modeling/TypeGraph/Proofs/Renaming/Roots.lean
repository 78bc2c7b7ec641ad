import TypeGraph.Renaming.Apply
import TypeGraph.Proofs.Renaming.Sources

/-! The roots of a renamed configuration. Of several kinds of operation that start at one type
only the first follows a renaming of that type. -/

namespace TypeGraph

def Operation.before (k : Operation) : List Operation := all.takeWhile fun j => j ≠ k

theorem Operation.sublist_of_mem_before {j k : Operation} (h : j ∈ k.before) :
    [j, k].Sublist all := by
  revert h
  cases j <;> cases k <;> decide

namespace Roots

variable {α β : Type} {r s : Roots α} {a : α} {j k : Operation}

theorem eq_of_get (h : ∀ k, r.get k = s.get k) : r = s :=
  Roots.ext (h .query) (h .mutation) (h .subscription)

theorem mem_names_iff : a ∈ r.names ↔ ∃ k, r.get k = some a := by
  rw [names, List.mem_filterMap]
  refine exists_congr fun k => and_iff_right ?_
  cases k <;> decide

@[simp]
theorem names_map (f : α → β) (r : Roots α) : (r.map f).names = r.names.map f := by
  rw [names, names, List.map_filterMap]
  exact List.filterMap_congr fun k _ => get_map f r k

@[simp]
theorem map_id (r : Roots α) : r.map id = r := eq_of_get fun k => by simp

@[simp]
theorem map_map {γ : Type} (f : α → β) (g : β → γ) (r : Roots α) :
    (r.map f).map g = r.map (g ∘ f) :=
  eq_of_get fun k => by simp

theorem map_congr {f g : α → β} (h : ∀ a ∈ r.names, f a = g a) : r.map f = r.map g :=
  eq_of_get fun k => by
    rw [get_map, get_map]
    exact Option.map_congr fun a ha => h a (mem_names_iff.mpr ⟨k, ha⟩)

theorem get_eq_none_of_shared (hn : r.names.Nodup) (hj : j ∈ k.before) (he : r.get j = r.get k) :
    r.get k = none := by
  cases hk : r.get k with
  | none => rfl
  | some a =>
    have htwice : [a, a].Sublist r.names := by
      have hsub := (Operation.sublist_of_mem_before hj).filterMap r.get
      rwa [List.filterMap_cons_some (he.trans hk), List.filterMap_cons_some hk] at hsub
    exact absurd htwice (List.nodup_iff_sublist.mp hn a)

end Roots

namespace Renaming

variable {roots : Roots String} {name : String} {k : Operation}

theorem rootOf?_eq_some_iff :
    rootOf? roots name = some k ↔
      roots.get k = some name ∧ ∀ j ∈ k.before, roots.get j ≠ some name := by
  by_cases hq : roots.get .query = some name <;>
    by_cases hm : roots.get .mutation = some name <;>
      cases k <;> simp [rootOf?, Operation.all, Operation.before, hq, hm]

def setRoots (roots out : Roots String) (pairs : List (String × String)) : Roots String :=
  pairs.foldl (fun out p =>
    match rootOf? roots p.1 with
    | some k => out.set k p.2
    | none => out) out

theorem get_setRoots_of_ne (out : Roots String) (pairs : List (String × String))
    (h : ∀ name, rootOf? roots name ≠ some k) : (setRoots roots out pairs).get k = out.get k := by
  induction pairs generalizing out with
  | nil => rfl
  | cons p pairs ih =>
    rw [setRoots, List.foldl_cons, ← setRoots, ih]
    cases hj : rootOf? roots p.1 with
    | none => rfl
    | some j =>
      have hjk : j ≠ k := fun he => h p.1 (he ▸ hj)
      rw [Roots.get_set, if_neg hjk]

theorem get_setRoots_of_eq (out : Roots String) {pairs : List (String × String)}
    (hn : (pairs.map Prod.fst).Nodup) (h : rootOf? roots name = some k) :
    (setRoots roots out pairs).get k = (Table.find? name pairs).or (out.get k) := by
  induction pairs generalizing out with
  | nil => rfl
  | cons p pairs ih =>
    obtain ⟨old, new⟩ := p
    rw [List.map_cons, List.nodup_cons] at hn
    rw [setRoots, List.foldl_cons, ← setRoots, ih _ hn.2, Table.find?]
    by_cases ho : old = name
    · subst ho
      rw [if_pos rfl, h, Table.find?_eq_none_iff.mpr hn.1, Option.none_or, Roots.get_set,
        if_pos rfl, Option.some_or]
    · rw [if_neg ho]
      cases hj : rootOf? roots old with
      | none => rfl
      | some j =>
        -- A root names one type, so the pair of another type sets another root.
        have hjk : j ≠ k := by
          rintro rfl
          have he := (rootOf?_eq_some_iff.mp hj).1.symm.trans (rootOf?_eq_some_iff.mp h).1
          exact ho (Option.some.inj he)
        simp only [Roots.get_set, if_neg hjk]

/-- Every root is resolved, but for one that an earlier kind of operation has as well. -/
theorem get_renameRoots (r : Renaming) (roots : Roots String) (k : Operation) :
    (r.renameRoots roots).get k =
      if ∃ j ∈ k.before, roots.get j = roots.get k then roots.get k
      else (roots.get k).map r.resolve := by
  have hset : r.renameRoots roots = setRoots roots roots r.entries := rfl
  rw [hset]
  cases hk : roots.get k with
  | none =>
    rw [get_setRoots_of_ne, hk, Option.map_none, ite_self]
    intro name hname
    rw [(rootOf?_eq_some_iff.mp hname).1] at hk
    cases hk
  | some name =>
    by_cases hs : ∃ j ∈ k.before, roots.get j = some name
    · rw [if_pos hs, get_setRoots_of_ne, hk]
      intro name' hname
      obtain ⟨hk', hbefore⟩ := rootOf?_eq_some_iff.mp hname
      obtain ⟨j, hj, he⟩ := hs
      exact hbefore j hj (he.trans (hk.symm.trans hk'))
    · have hroot : rootOf? roots name = some k :=
        rootOf?_eq_some_iff.mpr ⟨hk, fun j hj he => hs ⟨j, hj, he⟩⟩
      rw [if_neg hs, get_setRoots_of_eq _ r.nodup_keys hroot, hk, Option.map_some, resolve,
        Table.get?]
      cases Table.find? name r.entries <;> rfl

theorem renameRoots_of_nodup (r : Renaming) {roots : Roots String} (hn : roots.names.Nodup) :
    r.renameRoots roots = roots.map r.resolve := by
  refine Roots.eq_of_get fun k => ?_
  rw [get_renameRoots, Roots.get_map]
  split
  · next hs =>
    obtain ⟨j, hj, he⟩ := hs
    rw [Roots.get_eq_none_of_shared hn hj he, Option.map_none]
  · rfl

end Renaming
end TypeGraph
