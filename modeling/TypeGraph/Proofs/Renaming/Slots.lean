import TypeGraph.Proofs.Renaming.Ledger

/-! Slots while a renaming is under way. A seat has a slot of its own and leaves those of the types
to come empty, so the row of slots has room for every seat and none is lost when it is read. -/

namespace TypeGraph.Arrangement

open Renaming

variable {types : Table String Fields} {r : Renaming} {done pending : List (String × String)}
  {placed : Table String Seat} {a : Arrangement} {size : Nat}

def slots (a : Arrangement) : List Nat := a.placed.values.map Seat.slot

/-- The seats while the types `pending` are still to be placed. -/
structure InOrder (types : Table String Fields) (pending : List String) (a : Arrangement) :
    Prop where
  nodup_slots : a.slots.Nodup
  slot_lt : ∀ slot ∈ a.slots, slot < types.size
  nodup_origins : a.origins.Nodup
  fields : ∀ seat ∈ a.placed.values, types.get? seat.origin = some seat.fields
  free : ∀ old ∈ pending, ∃ own, types.slot? old = some own ∧ own ∉ a.slots

/-- The row of slots loses nothing: every seat is written into an empty cell, and the types that
are read off are those of the seats. -/
structure Lossless (size : Nat) (a : Arrangement) : Prop where
  empty_cell : ∀ (before : Table String Seat) e after,
    a.placed.entries = before.entries ++ e :: after → (row size before)[e.2.slot]? = some none
  get?_types : ∀ name, (a.types size).get? name = (a.placed.get? name).map Seat.fields
  size_types : (a.types size).size = a.placed.size

theorem mem_slots_iff {slot : Nat} :
    slot ∈ a.slots ↔ ∃ name seat, a.placed.get? name = some seat ∧ seat.slot = slot := by
  unfold slots
  rw [List.mem_map]
  constructor
  · rintro ⟨seat, hseat, he⟩
    obtain ⟨name, hs⟩ := Table.mem_values_iff_exists_get?.mp hseat
    exact ⟨name, seat, hs, he⟩
  · rintro ⟨name, seat, hs, he⟩
    have hseat : seat ∈ a.placed.values := Table.mem_values_iff_exists_get?.mpr ⟨name, hs⟩
    exact ⟨seat, hseat, he⟩

namespace Seated

theorem nodup_slots (h : Seated types r done a.placed) (hr : ∀ p ∈ done, p ∈ r.entries) :
    a.slots.Nodup := Table.nodup_map_values (h.slot_inj hr)

theorem nodup_origins (h : Seated types r done a.placed) (hr : ∀ p ∈ done, p ∈ r.entries) :
    a.origins.Nodup := by
  refine Table.nodup_map_values fun {name name' seat seat'} hs hs' ho => ?_
  have hname := h.resolve_bearer hr (Table.mem_of_get?_eq_some hs)
  have hname' := h.resolve_bearer hr (Table.mem_of_get?_eq_some hs')
  rw [← h.origin hs] at hname
  rw [← h.origin hs'] at hname'
  rw [← hname, ← hname', ho]

theorem own_notMem_slots (h : Seated types r done a.placed) {old : String} {own : Nat}
    (hr : old ∈ r) (hnew : old ∉ done.map Prod.fst) (hown : types.slot? old = some own) :
    own ∉ a.slots := by
  intro hm
  obtain ⟨name, seat, hs, he⟩ := mem_slots_iff.mp hm
  have hholder : holder types r done name = old := Table.slot?_inj (h.slot hs) (he ▸ hown)
  -- A slot goes back to a type that is not renamed or to one that was placed: `old` is neither.
  rcases h.holder_cases (Table.mem_of_get?_eq_some hs) with ⟨hk, hname⟩ | hp
  · have hkept : name = old := hname.symm.trans hholder
    exact hk.2 (hkept ▸ hr)
  · rw [hholder] at hp
    exact hnew (List.mem_map_of_mem hp)

theorem inOrder (h : Seated types r done a.placed) (hsplit : r.entries = done ++ pending)
    (hp : ∀ p ∈ pending, p.1 ∈ types) : InOrder types (pending.map Prod.fst) a := by
  have hr : ∀ p ∈ done, p ∈ r.entries := fun p hd => hsplit ▸ List.mem_append_left _ hd
  have hn : (done.map Prod.fst ++ pending.map Prod.fst).Nodup := by
    rw [← List.map_append, ← hsplit]
    exact r.nodup_keys
  refine ⟨h.nodup_slots hr, fun slot hslot => ?_, h.nodup_origins hr, fun seat hseat => ?_,
    fun old hold => ?_⟩
  · obtain ⟨name, seat, hs, rfl⟩ := mem_slots_iff.mp hslot
    exact h.slot_lt_size hs
  · obtain ⟨name, hs⟩ := Table.mem_values_iff_exists_get?.mp hseat
    exact h.fields hs
  · obtain ⟨p, hm, rfl⟩ := List.mem_map.mp hold
    obtain ⟨own, hown⟩ := Table.exists_slot? (hp p hm)
    have hpr : p.1 ∈ r := List.mem_map_of_mem (hsplit ▸ List.mem_append_right _ hm)
    have hnew : p.1 ∉ done.map Prod.fst := fun hd => (List.nodup_append'.mp hn).2.2 hd hold
    exact ⟨own, hown, h.own_notMem_slots hpr hnew hown⟩

end Seated

namespace Apart

theorem getElem?_row_before (h : Apart size placed) {before : Table String Seat}
    {e : String × Seat} {after : List (String × Seat)}
    (hsplit : placed.entries = before.entries ++ e :: after) :
    (row size before)[e.2.slot]? = some none := by
  have he : e ∈ placed.entries := by
    rw [hsplit]
    exact List.mem_append_right _ (List.mem_cons_self ..)
  have hlt : e.2.slot < size := h.slot_lt (Table.get?_eq_some_iff.mpr he)
  have hne : ∀ d ∈ before.entries, d.2.slot ≠ e.2.slot := fun d hd hslot => by
    have hn := h.nodup_slots
    rw [hsplit, List.map_append, List.nodup_append'] at hn
    have hd' : e.2.slot ∈ before.entries.map fun e => e.2.slot := hslot ▸ List.mem_map_of_mem hd
    exact hn.2.2 hd' (List.mem_cons_self ..)
  rw [row, ← write, getElem?_write_of_ne _ hne, List.getElem?_replicate, if_pos hlt]

theorem lossless (h : Apart size a.placed) : Lossless size a where
  empty_cell _ _ _ := h.getElem?_row_before
  get?_types := Arrangement.get?_types h
  size_types := Table.size_eq_of_mem_iff (mem_types_iff h)

end Apart

/-- Whatever number of pairs is placed, the seats are in order; so the row of slots loses nothing
when all are placed. -/
theorem seats_in_order (h : ∀ old ∈ r, old ∈ types) :
    (∀ n, InOrder types ((r.entries.drop n).map Prod.fst)
      ((start types r).placeAll types (r.entries.take n))) ∧
    Lossless types.size (Arrangement.of types r) := by
  have hmem : ∀ p ∈ r.entries, p.1 ∈ types := fun p hp => h p.1 (List.mem_map_of_mem hp)
  constructor
  · intro n
    have hdone : ∀ p ∈ r.entries.take n, p.1 ∈ types := fun p hp =>
      hmem p (List.mem_of_mem_take hp)
    have hpending : ∀ p ∈ r.entries.drop n, p.1 ∈ types := fun p hp =>
      hmem p (List.mem_of_mem_drop hp)
    exact (seated_placeAll hdone).inOrder (List.take_append_drop n r.entries).symm hpending
  · have hseated : Seated types r r.entries (Arrangement.of types r).placed := seated_placeAll hmem
    exact (hseated.apart fun _ hp => hp).lossless

theorem seats_in_order_ring :
    (∀ old ∈ ofPairs chain, old ∈ ring.types) ∧
    InOrder ring.types ["C"]
      ((start ring.types (ofPairs chain)).placeAll ring.types [("A", "D"), ("B", "C")]) ∧
    Lossless ring.types.size (Arrangement.of ring.types (ofPairs chain)) := by
  have hold : ∀ old ∈ (ofPairs chain).keys, old ∈ ring.types := by decide
  exact ⟨hold, (seats_in_order hold).1 2, (seats_in_order hold).2⟩

end TypeGraph.Arrangement
