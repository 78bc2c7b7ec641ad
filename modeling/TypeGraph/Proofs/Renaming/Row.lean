import TypeGraph.Renaming.Arrangement
import TypeGraph.Proofs.Lookup

/-! Reading the seats back in the order of their slots. When no two names share a slot, every
seat reaches the result, and the result is sorted by slots. -/

namespace TypeGraph.Arrangement

variable {size : Nat} {placed : Table String Seat} {es : List (String × Seat)}

structure Apart (size : Nat) (placed : Table String Seat) : Prop where
  slot_inj : ∀ {name name' seat seat'}, placed.get? name = some seat →
    placed.get? name' = some seat' → seat.slot = seat'.slot → name = name'
  slot_lt : ∀ {name seat}, placed.get? name = some seat → seat.slot < size

def write (cells : List (Option (String × Fields))) (es : List (String × Seat)) :
    List (Option (String × Fields)) :=
  es.foldl (fun cells e => cells.set e.2.slot (some (e.1, e.2.fields))) cells

theorem getElem?_write_of_ne (cells : List (Option (String × Fields))) {i : Nat}
    (h : ∀ e ∈ es, e.2.slot ≠ i) : (write cells es)[i]? = cells[i]? := by
  induction es generalizing cells with
  | nil => rfl
  | cons e es ih =>
    have hrest := ih (cells.set e.2.slot (some (e.1, e.2.fields))) fun e' he' =>
      h e' (List.mem_cons_of_mem _ he')
    rw [write, List.foldl_cons, ← write, hrest, List.getElem?_set_ne]
    exact h e (List.mem_cons_self ..)

theorem getElem?_write_of_mem (cells : List (Option (String × Fields))) {e : String × Seat}
    (hn : (es.map fun e => e.2.slot).Nodup) (he : e ∈ es) (hl : e.2.slot < cells.length) :
    (write cells es)[e.2.slot]? = some (some (e.1, e.2.fields)) := by
  induction es generalizing cells with
  | nil => exact absurd he List.not_mem_nil
  | cons d es ih =>
    rw [List.map_cons, List.nodup_cons] at hn
    rw [write, List.foldl_cons, ← write]
    rcases List.mem_cons.mp he with rfl | he
    · rw [getElem?_write_of_ne, List.getElem?_set_self hl]
      intro d hd hs
      exact hn.1 (List.mem_map.mpr ⟨d, hd, hs⟩)
    · exact ih _ hn.2 he (by rwa [List.length_set])

theorem Apart.nodup_slots (h : Apart size placed) :
    (placed.entries.map fun e => e.2.slot).Nodup := by
  have hslots : (placed.values.map Seat.slot).Nodup := Table.nodup_map_values h.slot_inj
  rwa [Table.values, List.map_map] at hslots

theorem getElem?_row (h : Apart size placed) {i : Nat} {name : String} {fields : Fields} :
    (row size placed)[i]? = some (some (name, fields)) ↔
      ∃ seat, placed.get? name = some seat ∧ seat.slot = i ∧ seat.fields = fields := by
  rw [row, ← write]
  have hcell : ∀ e ∈ placed.entries,
      (write (List.replicate size none) placed.entries)[e.2.slot]? =
        some (some (e.1, e.2.fields)) := by
    intro e he
    refine getElem?_write_of_mem _ h.nodup_slots he ?_
    rw [List.length_replicate]
    exact h.slot_lt (Table.get?_eq_some_iff.mpr he)
  constructor
  · intro hi
    by_cases hs : ∃ e ∈ placed.entries, e.2.slot = i
    · obtain ⟨⟨name', seat⟩, he, rfl⟩ := hs
      rw [hcell _ he, Option.some.injEq, Option.some.injEq, Prod.mk.injEq] at hi
      obtain ⟨rfl, rfl⟩ := hi
      exact ⟨seat, Table.get?_eq_some_iff.mpr he, rfl, rfl⟩
    · rw [getElem?_write_of_ne _ fun e he he' => hs ⟨e, he, he'⟩] at hi
      simp [List.getElem?_replicate] at hi
  · rintro ⟨seat, hseat, rfl, rfl⟩
    exact hcell (name, seat) (Table.get?_eq_some_iff.mp hseat)

def slotOf? (placed : Table String Seat) (name : String) : Option Nat :=
  (placed.get? name).map Seat.slot

theorem pairwise_row (h : Apart size placed) :
    (((row size placed).filterMap id).map Prod.fst).Pairwise (Table.Earlier (slotOf? placed)) := by
  rw [List.pairwise_map, List.pairwise_filterMap, List.pairwise_iff_getElem]
  rintro i j hi hj hij ⟨name, fields⟩ he ⟨name', fields'⟩ he'
  obtain ⟨seat, hs, rfl, -⟩ := (getElem?_row h).mp (List.getElem?_eq_some_iff.mpr ⟨hi, he⟩)
  obtain ⟨seat', hs', rfl, -⟩ := (getElem?_row h).mp (List.getElem?_eq_some_iff.mpr ⟨hj, he'⟩)
  exact ⟨seat.slot, seat'.slot, congrArg (Option.map Seat.slot) hs,
    congrArg (Option.map Seat.slot) hs', hij⟩

theorem entries_types {a : Arrangement} (h : Apart size a.placed) :
    (a.types size).entries = (row size a.placed).filterMap id :=
  Table.entries_ofList (Table.nodup_of_pairwise_earlier (pairwise_row h))

theorem pairwise_keys_types {a : Arrangement} (h : Apart size a.placed) :
    (a.types size).keys.Pairwise (Table.Earlier (slotOf? a.placed)) := by
  rw [Table.keys, entries_types h]
  exact pairwise_row h

theorem get?_types {a : Arrangement} (h : Apart size a.placed) (name : String) :
    (a.types size).get? name = (a.placed.get? name).map Seat.fields := by
  ext fields
  rw [Table.get?_eq_some_iff, entries_types h, List.mem_filterMap, Option.map_eq_some_iff]
  simp only [id_eq, exists_eq_right, List.mem_iff_getElem?, getElem?_row h]
  constructor
  · rintro ⟨i, seat, hs, -, hf⟩
    exact ⟨seat, hs, hf⟩
  · rintro ⟨seat, hs, hf⟩
    exact ⟨seat.slot, seat, hs, rfl, hf⟩

theorem mem_types_iff {a : Arrangement} (h : Apart size a.placed) (name : String) :
    name ∈ a.types size ↔ name ∈ a.placed := by
  simp only [Table.mem_iff_exists_get?, get?_types h, ← Option.isSome_iff_exists,
    Option.isSome_map]

end TypeGraph.Arrangement
