import TypeGraph.Renaming.Arrangement
import TypeGraph.Proofs.Lookup

/-! Which type of the input a final name goes back to: one gives it its fields and one its
slot. Both are types that the renaming brings to that name. -/

namespace TypeGraph.Renaming

def firstOld? (pairs : List (String × String)) (new : String) : Option String :=
  (pairs.find? fun p => p.2 = new).map Prod.fst

def lastOld? (pairs : List (String × String)) (new : String) : Option String :=
  (pairs.findRev? fun p => p.2 = new).map Prod.fst

def Keeps (r : Renaming) (types : Table String Fields) (name : String) : Prop :=
  name ∈ types ∧ name ∉ r

instance (r : Renaming) (types : Table String Fields) (name : String) :
    Decidable (r.Keeps types name) := inferInstanceAs (Decidable (_ ∧ _))

/-- The type whose fields end under a name. -/
def bearer (pairs : List (String × String)) (new : String) : String :=
  (lastOld? pairs new).getD new

/-- The type whose slot a name takes. -/
def holder (types : Table String Fields) (r : Renaming) (pairs : List (String × String))
    (new : String) : String :=
  if r.Keeps types new then new else (firstOld? pairs new).getD new

section Pairs

variable {pairs : List (String × String)} {old new : String}

@[simp]
theorem firstOld?_append (pairs pairs' : List (String × String)) (name : String) :
    firstOld? (pairs ++ pairs') name = (firstOld? pairs name).or (firstOld? pairs' name) := by
  unfold firstOld?
  rw [List.find?_append]
  cases pairs.find? fun p => p.2 = name <;> rfl

theorem lastOld?_eq_firstOld?_reverse (pairs : List (String × String)) (name : String) :
    lastOld? pairs name = firstOld? pairs.reverse name := by
  rw [lastOld?, firstOld?, List.findRev?_eq_find?_reverse]

@[simp]
theorem lastOld?_append (pairs pairs' : List (String × String)) (name : String) :
    lastOld? (pairs ++ pairs') name = (lastOld? pairs' name).or (lastOld? pairs name) := by
  simp only [lastOld?_eq_firstOld?_reverse, List.reverse_append, firstOld?_append]

@[simp]
theorem firstOld?_single (old new name : String) :
    firstOld? [(old, new)] name = if new = name then some old else none := by
  by_cases h : new = name <;> simp [firstOld?, h]

@[simp]
theorem lastOld?_single (old new name : String) :
    lastOld? [(old, new)] name = if new = name then some old else none :=
  (lastOld?_eq_firstOld?_reverse _ name).trans (firstOld?_single old new name)

theorem firstOld?_concat (pairs : List (String × String)) (old new name : String) :
    firstOld? (pairs ++ [(old, new)]) name =
      (firstOld? pairs name).or (if new = name then some old else none) := by
  rw [firstOld?_append, firstOld?_single]

theorem lastOld?_concat (pairs : List (String × String)) (old new name : String) :
    lastOld? (pairs ++ [(old, new)]) name =
      if new = name then some old else lastOld? pairs name := by
  rw [lastOld?_append, lastOld?_single]
  split <;> rfl

@[simp]
theorem firstOld?_map (f : String → String) (pairs : List (String × String)) (name : String) :
    firstOld? (pairs.map fun p => (f p.1, p.2)) name = (firstOld? pairs name).map f := by
  simp only [firstOld?, List.find?_map, Option.map_map, Function.comp_def]

@[simp]
theorem lastOld?_map (f : String → String) (pairs : List (String × String)) (name : String) :
    lastOld? (pairs.map fun p => (f p.1, p.2)) name = (lastOld? pairs name).map f := by
  simp only [lastOld?_eq_firstOld?_reverse, ← List.map_reverse, firstOld?_map]

theorem firstOld?_filter (P : String → Prop) [DecidablePred P] (pairs : List (String × String))
    (name : String) :
    firstOld? (pairs.filter fun p => P p.2) name =
      if P name then firstOld? pairs name else none := by
  unfold firstOld?
  rw [List.find?_filter]
  split
  · next h =>
    refine congrArg (Option.map Prod.fst) (congrArg (List.find? · pairs) (funext fun p => ?_))
    by_cases hp : p.2 = name <;> simp [hp, h]
  · next h =>
    rw [Option.map_eq_none_iff, List.find?_eq_none]
    rintro p - hp
    simp only [decide_eq_true_eq] at hp
    exact h (hp.2 ▸ hp.1)

theorem lastOld?_filter (P : String → Prop) [DecidablePred P] (pairs : List (String × String))
    (name : String) :
    lastOld? (pairs.filter fun p => P p.2) name =
      if P name then lastOld? pairs name else none := by
  simp only [lastOld?_eq_firstOld?_reverse, ← List.filter_reverse, firstOld?_filter]

theorem firstOld?_eq_none_iff : firstOld? pairs new = none ↔ ∀ p ∈ pairs, p.2 ≠ new := by
  simp [firstOld?]

theorem exists_firstOld? (h : ∃ p ∈ pairs, p.2 = new) : ∃ old, firstOld? pairs new = some old := by
  obtain ⟨p, hp, he⟩ := h
  exact Option.ne_none_iff_exists'.mp fun hn => firstOld?_eq_none_iff.mp hn p hp he

theorem lastOld?_eq_none_iff : lastOld? pairs new = none ↔ ∀ p ∈ pairs, p.2 ≠ new := by
  rw [lastOld?_eq_firstOld?_reverse, firstOld?_eq_none_iff]
  simp only [List.mem_reverse]

theorem mem_of_firstOld? (h : firstOld? pairs new = some old) : (old, new) ∈ pairs := by
  obtain ⟨p, hp, rfl⟩ := Option.map_eq_some_iff.mp h
  have hn : p.2 = new := by simpa using List.find?_some hp
  exact hn ▸ List.mem_of_find?_eq_some hp

theorem mem_of_lastOld? (h : lastOld? pairs new = some old) : (old, new) ∈ pairs := by
  rw [lastOld?_eq_firstOld?_reverse] at h
  exact List.mem_reverse.mp (mem_of_firstOld? h)

theorem firstOld?_eq_some_iff (hn : (pairs.map Prod.snd).Nodup) :
    firstOld? pairs new = some old ↔ (old, new) ∈ pairs := by
  refine ⟨mem_of_firstOld?, fun hm => ?_⟩
  obtain ⟨first, hfirst⟩ := exists_firstOld? ⟨(old, new), hm, rfl⟩
  have hsame := List.inj_on_of_nodup_map hn (mem_of_firstOld? hfirst) hm rfl
  rw [hfirst, (Prod.mk.inj hsame).1]

theorem lastOld?_eq_some_iff (hn : (pairs.map Prod.snd).Nodup) :
    lastOld? pairs new = some old ↔ (old, new) ∈ pairs := by
  have hrev : (pairs.reverse.map Prod.snd).Nodup := by
    rw [List.map_reverse]
    exact List.nodup_reverse.mpr hn
  rw [lastOld?_eq_firstOld?_reverse, firstOld?_eq_some_iff hrev, List.mem_reverse]

end Pairs

section Resolve

variable {r : Renaming} {old new name : String}

theorem resolve_of_mem (h : (old, new) ∈ r.entries) : r.resolve old = new := by
  rw [resolve, Table.get?_eq_some_iff.mpr h, Option.getD_some]

theorem resolve_of_notMem (h : name ∉ r) : r.resolve name = name := by
  rw [resolve, Table.get?_eq_none_iff.mpr h, Option.getD_none]

theorem mem_entries_resolve (h : old ∈ r) : (old, r.resolve old) ∈ r.entries := by
  obtain ⟨new, hn⟩ := Table.mem_iff_exists_get?.mp h
  rw [resolve, hn, Option.getD_some]
  exact Table.get?_eq_some_iff.mp hn

theorem mem_values_iff : new ∈ r.values ↔ ∃ p ∈ r.entries, p.2 = new := List.mem_map

theorem resolve_eq_iff (hv : old ∉ r.values) : r.resolve name = old ↔ name = old ∧ name ∉ r := by
  constructor
  · rintro rfl
    have hr : name ∉ r := fun hm => hv (mem_values_iff.mpr ⟨_, mem_entries_resolve hm, rfl⟩)
    exact ⟨(resolve_of_notMem hr).symm, hr⟩
  · rintro ⟨rfl, hr⟩
    exact resolve_of_notMem hr

end Resolve

end TypeGraph.Renaming
