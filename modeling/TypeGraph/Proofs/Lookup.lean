import TypeGraph.Table
import Mathlib.Data.List.Induction
import Mathlib.Data.List.Nodup

/-! Looking up the keys of a table and counting their places, and what a list of pairs with
repeated keys becomes. -/

namespace TypeGraph.Table

variable {κ α β : Type}

section Order

variable {before : κ → κ → Prop} {slot? : κ → Option Nat} {k l : κ} {keys keys' : List κ}

theorem nodup_of_pairwise (asymm : ∀ k l, before k l → ¬ before l k)
    (h : keys.Pairwise before) : keys.Nodup := by
  refine h.imp ?_
  rintro k _ hkl rfl
  exact asymm k k hkl hkl

theorem eq_of_pairwise (asymm : ∀ k l, before k l → ¬ before l k) (h : keys.Pairwise before)
    (h' : keys'.Pairwise before) (hm : ∀ k, k ∈ keys ↔ k ∈ keys') : keys = keys' :=
  List.Perm.eq_of_pairwise (fun k l _ _ hkl hlk => absurd hlk (asymm k l hkl)) h h'
    ((List.perm_ext_iff_of_nodup (nodup_of_pairwise asymm h) (nodup_of_pairwise asymm h')).mpr hm)

def Earlier (slot? : κ → Option Nat) (k l : κ) : Prop :=
  ∃ i j, slot? k = some i ∧ slot? l = some j ∧ i < j

theorem Earlier.asymm (h : Earlier slot? k l) : ¬ Earlier slot? l k := by
  obtain ⟨i, j, hi, hj, hij⟩ := h
  rintro ⟨j', i', hj', hi', hji⟩
  rw [hi, Option.some.injEq] at hi'
  rw [hj, Option.some.injEq] at hj'
  omega

theorem nodup_of_pairwise_earlier (h : keys.Pairwise (Earlier slot?)) : keys.Nodup :=
  nodup_of_pairwise (fun _ _ => Earlier.asymm) h

theorem eq_of_pairwise_earlier (h : keys.Pairwise (Earlier slot?))
    (h' : keys'.Pairwise (Earlier slot?)) (hm : ∀ k, k ∈ keys ↔ k ∈ keys') : keys = keys' :=
  eq_of_pairwise (fun _ _ => Earlier.asymm) h h' hm

end Order

@[simp]
theorem map_id (t : Table κ α) : t.map id = t := Table.ext (List.map_id t.entries)

@[simp]
theorem map_map {γ : Type} (f : α → β) (g : β → γ) (t : Table κ α) :
    (t.map f).map g = t.map (g ∘ f) := by
  refine Table.ext ?_
  simp only [map, mapWithKey, List.map_map, Function.comp_def]

@[simp]
theorem values_map (f : α → β) (t : Table κ α) : (t.map f).values = t.values.map f := by
  simp only [values, map, mapWithKey, List.map_map, Function.comp_def]

@[simp]
theorem mem_map_iff {f : α → β} {t : Table κ α} {k : κ} : k ∈ t.map f ↔ k ∈ t := by
  rw [mem_iff, ← keys, keys_map]
  exact Iff.rfl

theorem size_eq_of_mem_iff {s : Table κ α} {t : Table κ β} (h : ∀ k, k ∈ s ↔ k ∈ t) :
    s.size = t.size := by
  have hperm : s.keys.Perm t.keys :=
    (List.perm_ext_iff_of_nodup s.nodup_keys t.nodup_keys).mpr h
  simpa only [keys, size, List.length_map] using hperm.length_eq

variable [DecidableEq κ]

theorem find?_eq_some_iff {es : List (κ × α)} (h : (es.map Prod.fst).Nodup) {k : κ} {a : α} :
    find? k es = some a ↔ (k, a) ∈ es := by
  induction es with
  | nil => simp [find?]
  | cons e es ih =>
    obtain ⟨k', b⟩ := e
    rw [List.map_cons, List.nodup_cons] at h
    by_cases hk : k' = k
    · subst hk
      have hn : (k', a) ∉ es := fun hm => h.1 (List.mem_map.mpr ⟨_, hm, rfl⟩)
      simp [find?, hn, eq_comm]
    · have hk' : ¬ k = k' := fun e => hk e.symm
      simpa [find?, hk, hk'] using ih h.2

theorem get?_eq_some_iff {t : Table κ α} {k : κ} {a : α} :
    t.get? k = some a ↔ (k, a) ∈ t.entries := find?_eq_some_iff t.nodup_keys

theorem mem_iff_exists_get? {t : Table κ α} {k : κ} : k ∈ t ↔ ∃ a, t.get? k = some a := by
  rw [← Option.ne_none_iff_exists', ne_eq, get?_eq_none_iff, not_not]

theorem mem_of_get?_eq_some {t : Table κ α} {k : κ} {a : α} (h : t.get? k = some a) : k ∈ t :=
  mem_iff_exists_get?.mpr ⟨a, h⟩

theorem mem_values_iff_exists_get? {t : Table κ α} {a : α} :
    a ∈ t.values ↔ ∃ k, t.get? k = some a := by
  simp only [values, List.mem_map, Prod.exists, get?_eq_some_iff, exists_eq_right]

theorem nodup_map_values {γ : Type} {t : Table κ α} {f : α → γ}
    (inj : ∀ {k l a b}, t.get? k = some a → t.get? l = some b → f a = f b → k = l) :
    (t.values.map f).Nodup := by
  rw [values, List.map_map]
  refine List.Nodup.map_on ?_ t.nodup_keys.of_map
  rintro ⟨k, a⟩ hk ⟨l, b⟩ hl hab
  have hkl : k = l := inj (get?_eq_some_iff.mpr hk) (get?_eq_some_iff.mpr hl) hab
  subst hkl
  have hsame := (get?_eq_some_iff.mpr hk).symm.trans (get?_eq_some_iff.mpr hl)
  rw [Option.some.inj hsame]

theorem entries_eq_filterMap_keys (t : Table κ α) :
    t.entries = t.keys.filterMap fun k => (t.get? k).map (k, ·) := by
  have hself : ∀ e ∈ t.entries, (t.get? e.1).map (e.1, ·) = some e := fun e he => by
    rw [get?_eq_some_iff.mpr he, Option.map_some]
  rw [keys, List.filterMap_map]
  exact List.filterMap_some.symm.trans (List.filterMap_congr fun e he => (hself e he).symm)

theorem eq_of_keys_of_get? {s t : Table κ α} (hk : s.keys = t.keys)
    (hg : ∀ k ∈ s, s.get? k = t.get? k) : s = t := by
  refine Table.ext ?_
  rw [entries_eq_filterMap_keys s, entries_eq_filterMap_keys t, ← hk]
  exact List.filterMap_congr fun k hm => by rw [hg k hm]

theorem map_congr {f g : α → β} {t : Table κ α} (h : ∀ k a, t.get? k = some a → f a = g a) :
    t.map f = t.map g := by
  refine eq_of_keys_of_get? ((keys_map f t).trans (keys_map g t).symm) fun k _ => ?_
  rw [get?_map, get?_map]
  exact Option.map_congr fun a ha => h k a ha

theorem values_insert_of_notMem {t : Table κ α} {k : κ} (h : k ∉ t) (a : α) :
    (t.insert k a).values = t.values ++ [a] := by
  have he : (t.insert k a).entries = t.entries ++ [(k, a)] := upsert_of_notMem h
  rw [values, he, List.map_append]
  rfl

theorem perm_map_snd_upsert {k : κ} (a : α) {b : α} {es : List (κ × α)}
    (h : find? k es = some b) :
    (b :: (upsert k a es).map Prod.snd).Perm (a :: es.map Prod.snd) := by
  induction es with
  | nil => cases h
  | cons e es ih =>
    obtain ⟨k', d⟩ := e
    by_cases hk : k' = k
    · rw [find?, if_pos hk, Option.some.injEq] at h
      rw [upsert, if_pos hk, h]
      exact List.Perm.swap a b _
    · rw [find?, if_neg hk] at h
      rw [upsert, if_neg hk]
      calc (b :: d :: (upsert k a es).map Prod.snd).Perm
            (d :: b :: (upsert k a es).map Prod.snd) := List.Perm.swap d b _
        _ |>.Perm (d :: a :: es.map Prod.snd) := (ih h).cons d
        _ |>.Perm (a :: d :: es.map Prod.snd) := List.Perm.swap a d _

theorem perm_values_insert {t : Table κ α} {k : κ} (a : α) {b : α} (h : t.get? k = some b) :
    (b :: (t.insert k a).values).Perm (a :: t.values) := perm_map_snd_upsert a h

theorem mem_insert {t : Table κ α} {k l : κ} {a : α} : l ∈ t.insert k a ↔ k = l ∨ l ∈ t := by
  by_cases h : k = l <;> simp [mem_iff_exists_get?, get?_insert, h]

theorem get?_filterMap (f : κ → α → Option β) (t : Table κ α) (k : κ) :
    (t.filterMap f).get? k = (t.get? k).bind (f k) := by
  ext b
  rw [get?_eq_some_iff, Option.bind_eq_some_iff]
  simp only [filterMap, List.mem_filterMap, Option.map_eq_some_iff, Prod.mk.injEq, Prod.exists,
    get?_eq_some_iff]
  constructor
  · rintro ⟨k, a, hm, b, hf, rfl, rfl⟩
    exact ⟨a, hm, hf⟩
  · rintro ⟨a, hm, hf⟩
    exact ⟨k, a, hm, b, hf, rfl, rfl⟩

theorem ofList_concat (pairs : List (κ × α)) (k : κ) (a : α) :
    ofList (pairs ++ [(k, a)]) = (ofList pairs).insert k a := by
  simp only [ofList, insertAll, List.foldl_append, List.foldl_cons, List.foldl_nil]

theorem entries_ofList {pairs : List (κ × α)} (h : (pairs.map Prod.fst).Nodup) :
    (ofList pairs).entries = pairs := entries_insertAll empty pairs h

theorem keys_ofList (pairs : List (κ × α)) :
    (ofList pairs).keys = (pairs.map Prod.fst).eraseDups := by
  induction pairs using List.reverseRecOn with
  | nil => rfl
  | append_singleton ps p ih =>
    obtain ⟨k, a⟩ := p
    have hm : k ∈ ofList ps ↔ k ∈ ps.map Prod.fst := by
      rw [← List.mem_eraseDups, ← ih]
      rfl
    rw [ofList_concat, keys_insert, ih, List.map_append, List.eraseDups_append]
    by_cases hk : k ∈ ps.map Prod.fst
    · simp [hm, hk, List.removeAll]
    · simp [hm, hk, List.removeAll, List.eraseDups_cons]

theorem get?_ofList (pairs : List (κ × α)) (k : κ) :
    (ofList pairs).get? k = (pairs.findRev? fun p => p.1 = k).map Prod.snd := by
  rw [List.findRev?_eq_find?_reverse]
  induction pairs using List.reverseRecOn with
  | nil => rfl
  | append_singleton ps p ih =>
    obtain ⟨l, a⟩ := p
    rw [ofList_concat, get?_insert, ih, List.reverse_concat, List.find?_cons]
    by_cases h : l = k <;> simp [h]

theorem slot?_eq_some_iff {t : Table κ α} {k : κ} {i : Nat} :
    t.slot? k = some i ↔ t.keys[i]? = some k := by
  rw [slot?, List.idxOf?_eq_some_iff, List.getElem?_eq_some_iff]
  constructor
  · rintro ⟨hi, rfl, -⟩
    exact ⟨hi, rfl⟩
  · rintro ⟨hi, rfl⟩
    refine ⟨hi, rfl, fun j hj he => ?_⟩
    exact Nat.ne_of_lt hj ((List.Nodup.getElem_inj_iff t.nodup_keys).mp he)

theorem mem_of_slot?_eq_some {t : Table κ α} {k : κ} {i : Nat} (h : t.slot? k = some i) : k ∈ t :=
  List.mem_of_getElem? (slot?_eq_some_iff.mp h)

theorem slot?_lt_size {t : Table κ α} {k : κ} {i : Nat} (h : t.slot? k = some i) : i < t.size := by
  obtain ⟨hi, -⟩ := List.getElem?_eq_some_iff.mp (slot?_eq_some_iff.mp h)
  simpa only [keys, List.length_map, size] using hi

theorem slot?_inj {t : Table κ α} {k l : κ} {i : Nat} (hk : t.slot? k = some i)
    (hl : t.slot? l = some i) : k = l := by
  have h := (slot?_eq_some_iff.mp hk).symm.trans (slot?_eq_some_iff.mp hl)
  exact Option.some.inj h

theorem exists_slot? {t : Table κ α} {k : κ} (h : k ∈ t) : ∃ i, t.slot? k = some i := by
  rw [← Option.ne_none_iff_exists', ne_eq, slot?, List.idxOf?_eq_none_iff, not_not]
  exact h

theorem pairwise_keys (t : Table κ α) : t.keys.Pairwise (Earlier t.slot?) := by
  rw [List.pairwise_iff_getElem]
  intro i j hi hj hij
  exact ⟨i, j, slot?_eq_some_iff.mpr (List.getElem?_eq_getElem hi),
    slot?_eq_some_iff.mpr (List.getElem?_eq_getElem hj), hij⟩

theorem rel_of_earlier {t : Table κ α} {R : κ → κ → Prop} (h : t.keys.Pairwise R) {k l : κ}
    (he : Earlier t.slot? k l) : R k l := by
  obtain ⟨i, j, hi, hj, hij⟩ := he
  obtain ⟨hli, rfl⟩ := List.getElem?_eq_some_iff.mp (slot?_eq_some_iff.mp hi)
  obtain ⟨hlj, rfl⟩ := List.getElem?_eq_some_iff.mp (slot?_eq_some_iff.mp hj)
  exact List.pairwise_iff_getElem.mp h i j hli hlj hij

end TypeGraph.Table
