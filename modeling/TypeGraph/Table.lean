/-! Finite maps that remember the order in which their keys were first written.
A later write to a key replaces its value and leaves its place alone. -/

namespace TypeGraph

/-- Keys with their values, in the order in which the keys were first written. -/
@[ext]
structure Table (κ : Type) (α : Type) where
  entries : List (κ × α)
  nodup_keys : (entries.map Prod.fst).Nodup

namespace Table

variable {κ κ' α β : Type}

instance [DecidableEq κ] [DecidableEq α] : DecidableEq (Table κ α) := fun s t =>
  decidable_of_iff (s.entries = t.entries) Table.ext_iff.symm

def empty : Table κ α := ⟨[], List.nodup_nil⟩

instance : Inhabited (Table κ α) := ⟨empty⟩

def size (t : Table κ α) : Nat := t.entries.length

def keys (t : Table κ α) : List κ := t.entries.map Prod.fst

def values (t : Table κ α) : List α := t.entries.map Prod.snd

instance : Membership κ (Table κ α) := ⟨fun t k => k ∈ t.keys⟩

theorem mem_iff {t : Table κ α} {k : κ} : k ∈ t ↔ k ∈ t.entries.map Prod.fst := Iff.rfl

instance [DecidableEq κ] (t : Table κ α) (k : κ) : Decidable (k ∈ t) :=
  inferInstanceAs (Decidable (k ∈ t.entries.map Prod.fst))

def find? [DecidableEq κ] (k : κ) : List (κ × α) → Option α
  | [] => none
  | (k', a) :: rest => if k' = k then some a else find? k rest

def get? [DecidableEq κ] (t : Table κ α) (k : κ) : Option α := find? k t.entries

theorem find?_eq_none_iff [DecidableEq κ] {k : κ} {es : List (κ × α)} :
    find? k es = none ↔ k ∉ es.map Prod.fst := by
  induction es with
  | nil => simp [find?]
  | cons e es ih =>
    obtain ⟨k', b⟩ := e
    by_cases h : k' = k
    · simp [find?, h]
    · have h' : ¬ k = k' := fun e => h e.symm
      simpa [find?, h, h'] using ih

theorem get?_eq_none_iff [DecidableEq κ] {t : Table κ α} {k : κ} : t.get? k = none ↔ k ∉ t :=
  find?_eq_none_iff

def slot? [DecidableEq κ] (t : Table κ α) (k : κ) : Option Nat := t.keys.idxOf? k

/-- Replaces the value of a key where it stands, or adds the key at the end. -/
def upsert [DecidableEq κ] (k : κ) (a : α) : List (κ × α) → List (κ × α)
  | [] => [(k, a)]
  | (k', b) :: rest => if k' = k then (k, a) :: rest else (k', b) :: upsert k a rest

theorem map_fst_upsert [DecidableEq κ] (k : κ) (a : α) (es : List (κ × α)) :
    (upsert k a es).map Prod.fst =
      if k ∈ es.map Prod.fst then es.map Prod.fst else es.map Prod.fst ++ [k] := by
  induction es with
  | nil => simp [upsert]
  | cons e es ih =>
    obtain ⟨k', b⟩ := e
    by_cases h : k' = k
    · simp [upsert, h]
    · have h' : ¬ k = k' := fun e => h e.symm
      by_cases hm : k ∈ es.map Prod.fst <;> simp_all [upsert]

theorem nodup_upsert [DecidableEq κ] {k : κ} {a : α} {es : List (κ × α)}
    (h : (es.map Prod.fst).Nodup) : ((upsert k a es).map Prod.fst).Nodup := by
  rw [map_fst_upsert]
  split
  · exact h
  · next hk =>
    refine List.nodup_append.mpr ⟨h, by simp, ?_⟩
    intro x hx y hy e
    rw [List.mem_singleton] at hy
    exact hk (hy ▸ e ▸ hx)

def insert [DecidableEq κ] (t : Table κ α) (k : κ) (a : α) : Table κ α :=
  ⟨upsert k a t.entries, nodup_upsert t.nodup_keys⟩

theorem find?_upsert [DecidableEq κ] (k l : κ) (a : α) (es : List (κ × α)) :
    find? l (upsert k a es) = if k = l then some a else find? l es := by
  induction es with
  | nil => rfl
  | cons e es ih =>
    obtain ⟨k', b⟩ := e
    by_cases h : k' = k
    · subst h
      by_cases hl : k' = l <;> simp [upsert, find?, hl]
    · by_cases hl : k' = l
      · subst hl
        have h' : ¬ k = k' := fun e => h e.symm
        simp [upsert, find?, h, h']
      · simpa [upsert, find?, h, hl] using ih

theorem get?_insert [DecidableEq κ] (t : Table κ α) (k l : κ) (a : α) :
    (t.insert k a).get? l = if k = l then some a else t.get? l :=
  find?_upsert k l a t.entries

theorem keys_insert [DecidableEq κ] (t : Table κ α) (k : κ) (a : α) :
    (t.insert k a).keys = if k ∈ t then t.keys else t.keys ++ [k] :=
  map_fst_upsert k a t.entries

/-- Writes pairs in turn: a repeated key keeps its first place and takes its last value. -/
def insertAll [DecidableEq κ] (t : Table κ α) (pairs : List (κ × α)) : Table κ α :=
  pairs.foldl (fun t p => t.insert p.1 p.2) t

def ofList [DecidableEq κ] (pairs : List (κ × α)) : Table κ α := empty.insertAll pairs

theorem upsert_of_notMem [DecidableEq κ] {k : κ} {a : α} {es : List (κ × α)}
    (h : k ∉ es.map Prod.fst) : upsert k a es = es ++ [(k, a)] := by
  induction es with
  | nil => rfl
  | cons e es ih =>
    obtain ⟨k', b⟩ := e
    rw [List.map_cons, List.mem_cons, not_or] at h
    have h' : ¬ k' = k := fun e => h.1 e.symm
    simpa [upsert, h'] using ih h.2

theorem entries_insertAll [DecidableEq κ] (t : Table κ α) (pairs : List (κ × α))
    (h : (t.keys ++ pairs.map Prod.fst).Nodup) :
    (t.insertAll pairs).entries = t.entries ++ pairs := by
  induction pairs generalizing t with
  | nil => simp [insertAll]
  | cons p ps ih =>
    obtain ⟨k, a⟩ := p
    have hk : k ∉ t := fun hm =>
      (List.nodup_append.mp h).2.2 k hm k (List.mem_cons_self ..) rfl
    have he : (t.insert k a).entries = t.entries ++ [(k, a)] := upsert_of_notMem hk
    have hn : ((t.insert k a).keys ++ ps.map Prod.fst).Nodup := by
      rw [keys_insert, if_neg hk, List.append_assoc]
      exact h
    have hs : t.insertAll ((k, a) :: ps) = (t.insert k a).insertAll ps := rfl
    rw [hs, ih _ hn, he, List.append_assoc]
    rfl

@[simp]
theorem ofList_entries [DecidableEq κ] (t : Table κ α) : ofList t.entries = t := by
  refine Table.ext ?_
  have h := entries_insertAll empty t.entries (by simpa [empty, keys] using t.nodup_keys)
  rwa [show empty.entries = ([] : List (κ × α)) from rfl, List.nil_append] at h

def mapWithKey (f : κ → α → β) (t : Table κ α) : Table κ β :=
  ⟨t.entries.map fun e => (e.1, f e.1 e.2), by
    simpa [List.map_map, Function.comp_def] using t.nodup_keys⟩

def map (f : α → β) (t : Table κ α) : Table κ β := t.mapWithKey fun _ a => f a

@[simp]
theorem keys_mapWithKey (f : κ → α → β) (t : Table κ α) : (t.mapWithKey f).keys = t.keys := by
  simp [keys, mapWithKey]

@[simp]
theorem keys_map (f : α → β) (t : Table κ α) : (t.map f).keys = t.keys :=
  keys_mapWithKey (fun _ => f) t

theorem find?_map [DecidableEq κ] (f : κ → α → β) (k : κ) (es : List (κ × α)) :
    find? k (es.map fun e => (e.1, f e.1 e.2)) = (find? k es).map (f k) := by
  induction es with
  | nil => rfl
  | cons e es ih =>
    obtain ⟨k', b⟩ := e
    by_cases h : k' = k
    · subst h
      simp [find?]
    · simpa [find?, h] using ih

@[simp]
theorem get?_map [DecidableEq κ] (f : α → β) (t : Table κ α) (k : κ) :
    (t.map f).get? k = (t.get? k).map f :=
  find?_map (fun _ => f) k t.entries

def filterMap (f : κ → α → Option β) (t : Table κ α) : Table κ β :=
  ⟨t.entries.filterMap fun e => (f e.1 e.2).map (e.1, ·), by
    refine t.nodup_keys.sublist ?_
    rw [List.map_filterMap]
    induction t.entries with
    | nil => exact List.Sublist.slnil
    | cons e es ih =>
      cases h : f e.1 e.2 with
      | none => simpa [List.filterMap_cons, h] using ih.cons e.1
      | some b => simpa [List.filterMap_cons, h] using ih.cons_cons e.1⟩

def rekey (f : κ → κ') (inj : ∀ {a b}, f a = f b → a = b) (t : Table κ α) : Table κ' α :=
  ⟨t.entries.map fun e => (f e.1, e.2), by
    have h : ((t.entries.map Prod.fst).map f).Nodup :=
      List.Pairwise.map f (fun _ _ hab e => hab (inj e)) t.nodup_keys
    simpa [List.map_map, Function.comp_def] using h⟩

/-- Runs `f` on the values in order; the first failure ends the run. -/
def mapM {m : Type → Type} [Monad m] [DecidableEq κ] (f : κ → α → m β) (t : Table κ α) :
    m (Table κ β) := do
  return ofList (← t.entries.mapM fun e => do return (e.1, ← f e.1 e.2))

end Table
end TypeGraph
