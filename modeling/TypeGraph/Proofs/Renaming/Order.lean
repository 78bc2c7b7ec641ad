import TypeGraph.Proofs.Renaming.Types

/-! The order of the types of a renamed configuration. -/

namespace TypeGraph.Renaming

variable {r : Renaming} {c : Config} {out : Renamed} {name : String}

/-- The slot of a name: the place of the type if it is not renamed, and otherwise the place of
the type that the first pair with this new name renames. -/
def finalSlot? (c : Config) (r : Renaming) (name : String) : Option Nat :=
  if r.Keeps c.types name then c.types.slot? name
  else (firstOld? r.entries name).bind c.types.slot?

theorem finalSlot?_eq (h : r.Applies c) (hm : name ∈ (r.rename c).config.types) :
    finalSlot? c r name = c.types.slot? (holder c.types r r.entries name) := by
  unfold finalSlot? holder
  by_cases hk : r.Keeps c.types name
  · rw [if_pos hk, if_pos hk]
  · obtain ⟨first, hfirst⟩ := exists_firstOld?_of_not_keeps h hm hk
    rw [if_neg hk, if_neg hk, hfirst]
    rfl

theorem holder_mem (h : r.Applies c) (hm : name ∈ (r.rename c).config.types) :
    holder c.types r r.entries name ∈ c.types := by
  obtain ⟨seat, hs⟩ := Table.mem_iff_exists_get?.mp ((mem_rename_iff_placed h).mp hm)
  exact Table.mem_of_slot?_eq_some (h.seated.slot hs)

theorem exists_finalSlot? (h : r.Applies c) (hm : name ∈ (r.rename c).config.types) :
    ∃ i, finalSlot? c r name = some i := by
  rw [finalSlot?_eq h hm]
  exact Table.exists_slot? (holder_mem h hm)

theorem finalSlot?_inj (h : r.Applies c) {name' : String}
    (hm : name ∈ (r.rename c).config.types) (hm' : name' ∈ (r.rename c).config.types)
    (he : finalSlot? c r name = finalSlot? c r name') : name = name' := by
  obtain ⟨i, hi⟩ := exists_finalSlot? h hm
  have hi' := he ▸ hi
  rw [finalSlot?_eq h hm] at hi
  rw [finalSlot?_eq h hm'] at hi'
  rw [← resolve_holder h hm, ← resolve_holder h hm', Table.slot?_inj hi hi']

theorem pairwise_finalSlot? (h : r.Applies c) :
    (r.rename c).config.types.keys.Pairwise (Table.Earlier (finalSlot? c r)) := by
  refine (pairwise_keys_rename h).imp_of_mem ?_
  rintro name name' hm hm' ⟨i, j, hi, hj, hij⟩
  exact ⟨i, j, (finalSlot?_eq h hm).trans hi, (finalSlot?_eq h hm').trans hj, hij⟩

theorem keys_filter_kept (h : r.Applies c) :
    (r.rename c).config.types.keys.filter (fun name => r.Keeps c.types name) =
      c.types.keys.filter fun name => name ∉ r := by
  refine Table.eq_of_pairwise_earlier ((pairwise_finalSlot? h).filter _) ?_ fun name => ?_
  · refine (c.types.pairwise_keys.filter _).imp_of_mem ?_
    rintro name name' hm hm' ⟨i, j, hi, hj, hij⟩
    obtain ⟨hc, hr⟩ := List.mem_filter.mp hm
    obtain ⟨hc', hr'⟩ := List.mem_filter.mp hm'
    refine ⟨i, j, ?_, ?_, hij⟩
    · rw [finalSlot?, if_pos ⟨hc, of_decide_eq_true hr⟩, hi]
    · rw [finalSlot?, if_pos ⟨hc', of_decide_eq_true hr'⟩, hj]
  · rw [List.mem_filter, List.mem_filter, decide_eq_true_eq, decide_eq_true_eq]
    constructor
    · rintro ⟨-, hc, hr⟩
      exact ⟨hc, hr⟩
    · rintro ⟨hc, hr⟩
      exact ⟨(mem_rename_iff h).mpr ⟨name, hc, resolve_of_notMem hr⟩, hc, hr⟩

theorem keys_rename_of_nodup (h : r.Applies c) (hn : (c.types.keys.map r.resolve).Nodup) :
    (r.rename c).config.types.keys = c.types.keys.map r.resolve := by
  -- A name has one holder, which is the only type that is brought to it.
  have hholder : ∀ old ∈ c.types, holder c.types r r.entries (r.resolve old) = old := by
    intro old ho
    have hm := resolve_mem_rename h ho
    exact List.inj_on_of_nodup_map hn (holder_mem h hm) ho (resolve_holder h hm)
  refine Table.eq_of_pairwise_earlier (pairwise_finalSlot? h) ?_ fun name => ?_
  · rw [List.pairwise_map]
    refine c.types.pairwise_keys.imp_of_mem ?_
    rintro old old' ho ho' ⟨i, j, hi, hj, hij⟩
    refine ⟨i, j, ?_, ?_, hij⟩
    · rw [finalSlot?_eq h (resolve_mem_rename h ho), hholder old ho, hi]
    · rw [finalSlot?_eq h (resolve_mem_rename h ho'), hholder old' ho', hj]
  · rw [List.mem_map]
    exact mem_rename_iff h

/-- The names of a renamed configuration have different slots and stand in the order of these
slots. So the types that are not renamed keep their order, and when no two types are brought to
one name every type keeps its place. -/
theorem keys_in_slot_order (h : r.apply c = .success out) :
    (∀ name ∈ out.config.types, ∃ i, finalSlot? c r name = some i) ∧
    (∀ name ∈ out.config.types, ∀ name' ∈ out.config.types,
      finalSlot? c r name = finalSlot? c r name' → name = name') ∧
    out.config.types.keys.Pairwise (Table.Earlier (finalSlot? c r)) ∧
    out.config.types.keys.filter (fun name => r.Keeps c.types name) =
      c.types.keys.filter (fun name => name ∉ r) ∧
    ((c.types.keys.map r.resolve).Nodup →
      out.config.types.keys = c.types.keys.map r.resolve) := by
  obtain ⟨ha, rfl⟩ := apply_eq_success_iff.mp h
  exact ⟨fun _ hm => exists_finalSlot? ha hm, fun _ hm _ hm' => finalSlot?_inj ha hm hm',
    pairwise_finalSlot? ha, keys_filter_kept ha, keys_rename_of_nodup ha⟩

def cycle : List (String × String) := [("B", "A"), ("A", "C"), ("C", "B")]

theorem keys_in_slot_order_cycle :
    (ofPairs cycle).apply ring = .success ((ofPairs cycle).rename ring) ∧
    (∃ i, finalSlot? ring (ofPairs cycle) "B" = some i) ∧
    ((ofPairs cycle).rename ring).config.types.keys.Pairwise
      (Table.Earlier (finalSlot? ring (ofPairs cycle))) ∧
    (ring.types.keys.map (ofPairs cycle).resolve).Nodup ∧
    ((ofPairs cycle).rename ring).config.types.keys =
      ring.types.keys.map (ofPairs cycle).resolve := by
  have h := keys_in_slot_order (r := ofPairs cycle) (c := ring) rfl
  exact ⟨by decide, h.1 "B" (by decide), h.2.2.1, by decide, h.2.2.2.2 (by decide)⟩

end TypeGraph.Renaming
