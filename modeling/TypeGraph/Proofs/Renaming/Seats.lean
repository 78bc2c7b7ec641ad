import TypeGraph.Proofs.Renaming.Row
import TypeGraph.Proofs.Renaming.Sources

/-! What every seat holds once some of the pairs of a renaming are placed. -/

namespace TypeGraph.Arrangement

open Renaming

variable {types : Table String Fields} {r : Renaming} {done : List (String × String)}
  {placed : Table String Seat}

/-- The state of the seats when the pairs `done` are placed: the last pair with a name gives
the seat its fields, the first one its slot, unless a type keeps the name and so the slot. -/
structure Seated (types : Table String Fields) (r : Renaming) (done : List (String × String))
    (placed : Table String Seat) : Prop where
  mem_iff : ∀ name, name ∈ placed ↔ r.Keeps types name ∨ ∃ p ∈ done, p.2 = name
  slot : ∀ {name seat}, placed.get? name = some seat →
    types.slot? (holder types r done name) = some seat.slot
  origin : ∀ {name seat}, placed.get? name = some seat → seat.origin = bearer done name
  fields : ∀ {name seat}, placed.get? name = some seat →
    types.get? seat.origin = some seat.fields

theorem get?_start_eq_some_iff {name : String} {seat : Seat} :
    (start types r).placed.get? name = some seat ↔ name ∉ r ∧ seat.origin = name ∧
      types.slot? name = some seat.slot ∧ types.get? name = some seat.fields := by
  obtain ⟨slot, origin, fields⟩ := seat
  rw [start, unrenamed, Table.get?_filterMap, Option.bind_eq_some_iff]
  by_cases hr : name ∈ r
  · simp [hr]
  · simp only [if_neg hr, Option.map_eq_some_iff, Seat.mk.injEq]
    constructor
    · rintro ⟨fields, hf, slot, hs, rfl, rfl, rfl⟩
      exact ⟨hr, rfl, hs, hf⟩
    · rintro ⟨-, rfl, hs, hf⟩
      exact ⟨fields, hf, slot, hs, rfl, rfl, rfl⟩

theorem seated_start (types : Table String Fields) (r : Renaming) :
    Seated types r [] (start types r).placed where
  mem_iff name := by
    simp only [List.not_mem_nil, false_and, exists_false, or_false]
    constructor
    · intro h
      obtain ⟨seat, hs⟩ := Table.mem_iff_exists_get?.mp h
      obtain ⟨hr, -, -, hf⟩ := get?_start_eq_some_iff.mp hs
      exact ⟨Table.mem_of_get?_eq_some hf, hr⟩
    · rintro ⟨ht, hr⟩
      obtain ⟨fields, hf⟩ := Table.mem_iff_exists_get?.mp ht
      obtain ⟨slot, hs⟩ := Table.exists_slot? ht
      exact Table.mem_of_get?_eq_some (a := ⟨slot, name, fields⟩)
        (get?_start_eq_some_iff.mpr ⟨hr, rfl, hs, hf⟩)
  slot h := by
    obtain ⟨hr, -, hs, hf⟩ := get?_start_eq_some_iff.mp h
    rwa [holder, if_pos ⟨Table.mem_of_get?_eq_some hf, hr⟩]
  origin h := (get?_start_eq_some_iff.mp h).2.1
  fields h := by
    obtain ⟨-, ho, -, hf⟩ := get?_start_eq_some_iff.mp h
    rwa [ho]

theorem placed_place (a : Arrangement) {old : String} (new : String) {own : Nat}
    {fields : Fields} (hs : types.slot? old = some own) (hf : types.get? old = some fields) :
    (a.place types old new).placed =
      a.placed.insert new ⟨((a.placed.get? new).map Seat.slot).getD own, old, fields⟩ := by
  unfold place
  rw [hs, hf]
  cases a.placed.get? new <;> rfl

theorem Seated.exists_firstOld?_of_not_keeps (h : Seated types r done placed) {name : String}
    (hm : name ∈ placed) (hk : ¬ r.Keeps types name) : ∃ old, firstOld? done name = some old :=
  exists_firstOld? (((h.mem_iff name).mp hm).resolve_left hk)

theorem Seated.keeps_of_lastOld?_eq_none (h : Seated types r done placed) {name : String}
    (hm : name ∈ placed) (hlast : lastOld? done name = none) : r.Keeps types name := by
  have hno : ¬ ∃ p ∈ done, p.2 = name := by
    rintro ⟨p, hp, he⟩
    exact lastOld?_eq_none_iff.mp hlast p hp he
  exact ((h.mem_iff name).mp hm).resolve_right hno

theorem Seated.holder_concat_of_mem (h : Seated types r done placed) {name : String}
    (hm : name ∈ placed) (old new : String) :
    holder types r (done ++ [(old, new)]) name = holder types r done name := by
  by_cases hk : r.Keeps types name
  · rw [holder, holder, if_pos hk, if_pos hk]
  · obtain ⟨first, hfirst⟩ := h.exists_firstOld?_of_not_keeps hm hk
    rw [holder, holder, if_neg hk, if_neg hk, firstOld?_concat, hfirst, Option.some_or]

theorem Seated.holder_concat_of_notMem (h : Seated types r done placed) (old : String)
    {new : String} (hm : new ∉ placed) : holder types r (done ++ [(old, new)]) new = old := by
  rw [h.mem_iff, not_or] at hm
  have hfirst : firstOld? done new = none :=
    firstOld?_eq_none_iff.mpr fun p hp he => hm.2 ⟨p, hp, he⟩
  rw [holder, if_neg hm.1, firstOld?_concat, hfirst, Option.none_or, if_pos rfl, Option.getD_some]

theorem Seated.place {a : Arrangement} (h : Seated types r done a.placed) {old : String}
    (hold : old ∈ types) (new : String) :
    Seated types r (done ++ [(old, new)]) (a.place types old new).placed := by
  obtain ⟨fields, hf⟩ := Table.mem_iff_exists_get?.mp hold
  obtain ⟨own, hs⟩ := Table.exists_slot? hold
  rw [placed_place a new hs hf]
  refine ⟨fun name => ?_, fun {name seat} hseat => ?_, fun {name seat} hseat => ?_,
    fun {name seat} hseat => ?_⟩
  · rw [Table.mem_insert, h.mem_iff, or_comm, or_assoc]
    simp only [List.mem_append, List.mem_singleton, or_and_right, exists_or, exists_eq_left]
  all_goals
    rw [Table.get?_insert] at hseat
    by_cases hn : new = name
  · subst hn
    rw [if_pos rfl, Option.some.injEq] at hseat
    subst hseat
    cases hp : a.placed.get? new with
    | none =>
      rw [h.holder_concat_of_notMem old (Table.get?_eq_none_iff.mp hp)]
      exact hs
    | some previous =>
      -- The new seat keeps the slot of the one it replaces.
      have hslot := h.slot hp
      rw [h.holder_concat_of_mem (Table.mem_of_get?_eq_some hp)]
      exact hslot
  · rw [if_neg hn] at hseat
    rw [h.holder_concat_of_mem (Table.mem_of_get?_eq_some hseat)]
    exact h.slot hseat
  · rw [if_pos hn, Option.some.injEq] at hseat
    rw [← hseat, bearer, lastOld?_concat, if_pos hn, Option.getD_some]
  · rw [if_neg hn] at hseat
    rw [h.origin hseat, bearer, bearer, lastOld?_concat, if_neg hn]
  · rw [if_pos hn, Option.some.injEq] at hseat
    rw [← hseat]
    exact hf
  · rw [if_neg hn] at hseat
    exact h.fields hseat

theorem placeAll_concat (a : Arrangement) (pairs : List (String × String)) (old new : String) :
    a.placeAll types (pairs ++ [(old, new)]) = (a.placeAll types pairs).place types old new := by
  simp only [placeAll, List.foldl_append, List.foldl_cons, List.foldl_nil]

theorem seated_placeAll (h : ∀ p ∈ done, p.1 ∈ types) :
    Seated types r done ((start types r).placeAll types done).placed := by
  induction done using List.reverseRecOn with
  | nil => exact seated_start types r
  | append_singleton done p ih =>
    obtain ⟨old, new⟩ := p
    rw [placeAll_concat]
    have hold : old ∈ types := h (old, new) (by simp)
    exact (ih fun p hp => h p (List.mem_append_left _ hp)).place hold new

namespace Seated

variable {name name' : String}

theorem holder_cases (h : Seated types r done placed) (hm : name ∈ placed) :
    (r.Keeps types name ∧ holder types r done name = name) ∨
      (holder types r done name, name) ∈ done := by
  by_cases hk : r.Keeps types name
  · exact .inl ⟨hk, if_pos hk⟩
  · obtain ⟨first, hfirst⟩ := h.exists_firstOld?_of_not_keeps hm hk
    have hholder : holder types r done name = first := by
      rw [holder, if_neg hk, hfirst, Option.getD_some]
    exact .inr (hholder ▸ mem_of_firstOld? hfirst)

theorem resolve_holder (h : Seated types r done placed) (hr : ∀ p ∈ done, p ∈ r.entries)
    (hm : name ∈ placed) : r.resolve (holder types r done name) = name := by
  rcases h.holder_cases hm with ⟨hk, hname⟩ | hp
  · rw [hname, resolve_of_notMem hk.2]
  · exact resolve_of_mem (hr _ hp)

theorem resolve_bearer (h : Seated types r done placed) (hr : ∀ p ∈ done, p ∈ r.entries)
    (hm : name ∈ placed) : r.resolve (bearer done name) = name := by
  cases hlast : lastOld? done name with
  | none =>
    have hk : r.Keeps types name := h.keeps_of_lastOld?_eq_none hm hlast
    rw [bearer, hlast, Option.getD_none, resolve_of_notMem hk.2]
  | some old =>
    rw [bearer, hlast, Option.getD_some]
    exact resolve_of_mem (hr _ (mem_of_lastOld? hlast))

theorem slot_inj (h : Seated types r done placed) (hr : ∀ p ∈ done, p ∈ r.entries)
    {seat seat' : Seat} (hs : placed.get? name = some seat)
    (hs' : placed.get? name' = some seat') (he : seat.slot = seat'.slot) : name = name' := by
  have hh : holder types r done name = holder types r done name' :=
    Table.slot?_inj (h.slot hs) (he ▸ h.slot hs')
  calc name = r.resolve (holder types r done name) :=
        (h.resolve_holder hr (Table.mem_of_get?_eq_some hs)).symm
    _ = r.resolve (holder types r done name') := by rw [hh]
    _ = name' := h.resolve_holder hr (Table.mem_of_get?_eq_some hs')

theorem slot_lt_size (h : Seated types r done placed) {seat : Seat}
    (hs : placed.get? name = some seat) : seat.slot < types.size := Table.slot?_lt_size (h.slot hs)

theorem apart (h : Seated types r done placed) (hr : ∀ p ∈ done, p ∈ r.entries) :
    Apart types.size placed where
  slot_inj := h.slot_inj hr
  slot_lt := h.slot_lt_size

end Seated
end TypeGraph.Arrangement
