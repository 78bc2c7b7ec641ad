import TypeGraph.Proofs.Renaming.Ledger
import TypeGraph.Proofs.Renaming.Roots
import TypeGraph.Proofs.Renaming.Twice

/-! Renamings that differ in one pair at the end. The longer one does what the shorter one and
then the last pair alone do. -/

namespace TypeGraph.Renaming

variable {r s t : Renaming} {c : Config} {name old new : String}

/-- The renaming `t` has one pair more than `r`, which alone is `s`. The type that it renames
was not renamed to before. -/
structure OneMore (r s t : Renaming) (old new : String) : Prop where
  whole : t.entries = r.entries ++ [(old, new)]
  single : s.entries = [(old, new)]
  notMem_values : old ∉ r.values
  ne : new ≠ old

namespace OneMore

theorem notMem (h : OneMore r s t old new) : old ∉ r := by
  have hn := t.nodup_keys
  rw [h.whole, List.map_append] at hn
  exact fun hm => (List.nodup_append'.mp hn).2.2 hm (List.mem_singleton_self old)

theorem mem_whole_iff (h : OneMore r s t old new) : name ∈ t ↔ name ∈ r ∨ name = old := by
  rw [Table.mem_iff, h.whole, List.map_append, List.mem_append]
  exact or_congr_right List.mem_singleton

theorem mem_single_iff (h : OneMore r s t old new) : name ∈ s ↔ name = old := by
  rw [Table.mem_iff, h.single]
  exact List.mem_singleton

theorem resolve_single (h : OneMore r s t old new) (name : String) :
    s.resolve name = if name = old then new else name := by
  split
  · next he =>
    have hp : (name, new) ∈ s.entries := by
      rw [h.single, he]
      exact List.mem_singleton_self _
    exact resolve_of_mem hp
  · next hn => exact resolve_of_notMem fun hm => hn (h.mem_single_iff.mp hm)

theorem resolve_whole (h : OneMore r s t old new) (name : String) :
    t.resolve name = if name = old then new else r.resolve name := by
  split
  · next he =>
    have hp : (name, new) ∈ t.entries := by
      rw [h.whole, he]
      exact List.mem_append_right _ (List.mem_singleton_self _)
    exact resolve_of_mem hp
  · next hn =>
    by_cases hr : name ∈ r
    · have hp : (name, r.resolve name) ∈ t.entries := by
        rw [h.whole]
        exact List.mem_append_left _ (mem_entries_resolve hr)
      exact resolve_of_mem hp
    · have ht : name ∉ t := fun hm => (h.mem_whole_iff.mp hm).elim hr hn
      rw [resolve_of_notMem hr, resolve_of_notMem ht]

theorem resolve_first_iff (h : OneMore r s t old new) : r.resolve name = old ↔ name = old :=
  (resolve_eq_iff h.notMem_values).trans ⟨And.left, fun he => ⟨he, he ▸ h.notMem⟩⟩

theorem resolve_eq (h : OneMore r s t old new) (name : String) :
    t.resolve name = s.resolve (r.resolve name) := by
  rw [h.resolve_whole, h.resolve_single]
  by_cases he : name = old
  · rw [if_pos he, if_pos (h.resolve_first_iff.mpr he)]
  · rw [if_neg he, if_neg fun hr => he (h.resolve_first_iff.mp hr)]

theorem applies_whole_iff (h : OneMore r s t old new) :
    t.Applies c ↔ r.Applies c ∧ old ∈ c.types := by
  constructor
  · exact fun ht => ⟨fun name hr => ht name (h.mem_whole_iff.mpr (.inl hr)),
      ht old (h.mem_whole_iff.mpr (.inr rfl))⟩
  · rintro ⟨hr, ho⟩ name hm
    rcases h.mem_whole_iff.mp hm with hm | rfl
    · exact hr name hm
    · exact ho

theorem applies_single_iff (h : OneMore r s t old new) (hr : r.Applies c) :
    s.Applies (r.rename c).config ↔ old ∈ c.types := by
  have hmem : old ∈ (r.rename c).config.types ↔ old ∈ c.types := by
    rw [mem_rename_iff hr]
    constructor
    · rintro ⟨name, hm, he⟩
      exact h.resolve_first_iff.mp he ▸ hm
    · exact fun hm => ⟨old, hm, resolve_of_notMem h.notMem⟩
  rw [← hmem]
  constructor
  · exact fun hs => hs old (h.mem_single_iff.mpr rfl)
  · exact fun hm name hname => h.mem_single_iff.mp hname ▸ hm

theorem bearer_old (h : OneMore r s t old new) : bearer r.entries old = old := by
  have hlast : lastOld? r.entries old = none :=
    lastOld?_eq_none_iff.mpr fun p hp he => h.notMem_values (mem_values_iff.mpr ⟨p, hp, he⟩)
  rw [bearer, hlast, Option.getD_none]

theorem holder_old (h : OneMore r s t old new) : holder c.types r r.entries old = old := by
  have hfirst : firstOld? r.entries old = none :=
    firstOld?_eq_none_iff.mpr fun p hp he => h.notMem_values (mem_values_iff.mpr ⟨p, hp, he⟩)
  rw [holder, hfirst, Option.getD_none, ite_self]

theorem bearer_eq (h : OneMore r s t old new) (name : String) :
    bearer t.entries name = bearer r.entries (bearer s.entries name) := by
  have hlast : lastOld? s.entries name = if new = name then some old else none :=
    h.single ▸ lastOld?_single old new name
  by_cases hn : new = name
  · have hs : bearer s.entries name = old := by rw [bearer, hlast, if_pos hn, Option.getD_some]
    rw [hs, h.bearer_old, bearer, h.whole, lastOld?_concat, if_pos hn, Option.getD_some]
  · have hs : bearer s.entries name = name := by rw [bearer, hlast, if_neg hn, Option.getD_none]
    rw [hs, bearer, bearer, h.whole, lastOld?_concat, if_neg hn]

theorem keeps_whole_iff (h : OneMore r s t old new) (hn : name ≠ old) :
    t.Keeps c.types name ↔ r.Keeps c.types name := by
  unfold Keeps
  rw [h.mem_whole_iff, or_iff_left hn]

theorem holder_of_mem (h : OneMore r s t old new) (hr : r.Applies c) (hn : name ≠ old)
    (hm : name ∈ (r.rename c).config.types) :
    holder c.types t t.entries name = holder c.types r r.entries name := by
  by_cases hk : r.Keeps c.types name
  · rw [holder, holder, if_pos hk, if_pos ((h.keeps_whole_iff hn).mpr hk)]
  · obtain ⟨first, hfirst⟩ := exists_firstOld?_of_not_keeps hr hm hk
    rw [holder, holder, if_neg hk, if_neg fun ht => hk ((h.keeps_whole_iff hn).mp ht), h.whole,
      firstOld?_concat, hfirst, Option.some_or]

theorem holder_of_notMem (h : OneMore r s t old new) (hr : r.Applies c)
    (hm : new ∉ (r.rename c).config.types) : holder c.types t t.entries new = old := by
  rw [mem_rename_iff_keeps hr, not_or] at hm
  have hfirst : firstOld? r.entries new = none :=
    firstOld?_eq_none_iff.mpr fun p hp he => hm.2 ⟨p, hp, he⟩
  rw [holder, if_neg fun ht => hm.1 ((h.keeps_whole_iff h.ne).mp ht), h.whole, firstOld?_concat,
    hfirst, Option.none_or, if_pos rfl, Option.getD_some]

theorem holder_eq (h : OneMore r s t old new) (hr : r.Applies c)
    (hs : s.Applies (r.rename c).config)
    (hm : name ∈ (s.rename (r.rename c).config).config.types) :
    holder c.types t t.entries name =
      holder c.types r r.entries (holder (r.rename c).config.types s s.entries name) := by
  obtain ⟨mid, hmid, rfl⟩ := (mem_rename_iff hs).mp hm
  have hname : s.resolve mid ≠ old := by
    rw [h.resolve_single]
    split
    · exact h.ne
    · assumption
  by_cases hthere : s.resolve mid ∈ (r.rename c).config.types
  · have hk : s.Keeps (r.rename c).config.types (s.resolve mid) :=
      ⟨hthere, fun hms => hname (h.mem_single_iff.mp hms)⟩
    have hsecond : holder (r.rename c).config.types s s.entries (s.resolve mid) =
        s.resolve mid := by rw [holder, if_pos hk]
    rw [hsecond, h.holder_of_mem hr hname hthere]
  · -- The name is not there yet, so it is the new one and takes the slot of the old one.
    have hnew : s.resolve mid = new := by
      rw [h.resolve_single] at hthere ⊢
      split at hthere
      · next he => rw [if_pos he]
      · exact absurd hmid hthere
    rw [hnew] at hthere ⊢
    have hsecond : holder (r.rename c).config.types s s.entries new = old := by
      have hfirst : firstOld? s.entries new = some old := by
        rw [h.single, firstOld?_single, if_pos rfl]
      rw [holder, if_neg fun hk => hthere hk.1, hfirst, Option.getD_some]
    rw [hsecond, h.holder_old, h.holder_of_notMem hr hthere]

theorem factors (h : OneMore r s t old new) (hr : r.Applies c) (ho : old ∈ c.types) :
    Factors c r s t where
  first := hr
  second := (h.applies_single_iff hr).mpr ho
  whole := h.applies_whole_iff.mpr ⟨hr, ho⟩
  resolve name _ := h.resolve_eq name
  bearer name _ := h.bearer_eq name
  holder _ hm := h.holder_eq hr ((h.applies_single_iff hr).mpr ho) hm

theorem rootOf?_renameRoots (h : OneMore r s t old new) (roots : Roots String) :
    rootOf? (r.renameRoots roots) old = rootOf? roots old := by
  have hroot : ∀ k, (r.renameRoots roots).get k = some old ↔ roots.get k = some old := fun k => by
    rw [get_renameRoots]
    split
    · rfl
    · rw [Option.map_eq_some_iff]
      simp only [h.resolve_first_iff, exists_eq_right]
  simp only [rootOf?, hroot]

theorem renameRoots_eq (h : OneMore r s t old new) (roots : Roots String) :
    t.renameRoots roots = s.renameRoots (r.renameRoots roots) := by
  rw [renameRoots, renameRoots, h.whole, h.single, List.foldl_append, ← renameRoots,
    List.foldl_cons, List.foldl_cons, h.rootOf?_renameRoots]
  rfl

theorem config_eq (h : OneMore r s t old new) (hr : r.Applies c) (ho : old ∈ c.types) :
    (t.rename c).config = (s.rename (r.rename c).config).config :=
  Config.ext (h.factors hr ho).types_eq (h.renameRoots_eq c.roots)

theorem length_collisions (h : OneMore r s t old new) (hr : r.Applies c) (ho : old ∈ c.types) :
    (t.rename c).collisions.length = (r.rename c).collisions.length +
      (s.rename (r.rename c).config).collisions.length := by
  have hfactors := h.factors hr ho
  have hwhole := length_collisions_add_size hfactors.whole
  have hfirst := length_collisions_add_size hfactors.first
  have hsecond := length_collisions_add_size hfactors.second
  rw [hfactors.types_eq] at hwhole
  omega

end OneMore

end TypeGraph.Renaming
