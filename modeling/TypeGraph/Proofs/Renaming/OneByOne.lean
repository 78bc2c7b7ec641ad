import TypeGraph.Proofs.Renaming.OneMore
import TypeGraph.Proofs.Renaming.Told

/-! Renaming pair by pair. When no new name is an old one, renaming by all pairs at once is
renaming by each of them in turn. -/

namespace TypeGraph.Renaming

variable {r : Renaming} {c : Config} {each : Renamed} {old new : String}
  {pairs : List (String × String)}

def applyPair (p : String × String) (done : Renamed) : Validation MissingType Renamed :=
  ((ofPairs [p]).apply done.config).map fun next =>
    ⟨next.config, done.collisions ++ next.collisions⟩

/-- Applies each pair as a renaming of its own to what the ones before it leave. The first that
fails ends it. -/
def applyEach (pairs : List (String × String)) (c : Config) : Validation MissingType Renamed :=
  pairs.foldl (fun outcome p => outcome.andThen (applyPair p)) (.success ⟨c, []⟩)

theorem applyEach_concat (pairs : List (String × String)) (p : String × String) (c : Config) :
    applyEach (pairs ++ [p]) c = (applyEach pairs c).andThen (applyPair p) := by
  rw [applyEach, List.foldl_append]
  rfl

structure Separate (pairs : List (String × String)) : Prop where
  nodup : (pairs.map Prod.fst).Nodup
  ne : ∀ p ∈ pairs, ∀ q ∈ pairs, p.2 ≠ q.1

theorem Separate.init {p : String × String} (h : Separate (pairs ++ [p])) : Separate pairs where
  nodup := (h.nodup.sublist ((List.sublist_append_left pairs [p]).map Prod.fst))
  ne q hq q' hq' := h.ne q (List.mem_append_left _ hq) q' (List.mem_append_left _ hq')

theorem Separate.oneMore (h : Separate (pairs ++ [(old, new)])) :
    OneMore (ofPairs pairs) (ofPairs [(old, new)]) (ofPairs (pairs ++ [(old, new)])) old new where
  whole := by rw [ofPairs, ofPairs, Table.entries_ofList h.nodup, Table.entries_ofList h.init.nodup]
  single := rfl
  notMem_values hm := by
    obtain ⟨p, hp, he⟩ := mem_values_iff.mp hm
    rw [ofPairs, Table.entries_ofList h.init.nodup] at hp
    exact h.ne p (List.mem_append_left _ hp) (old, new) (by simp) he
  ne := h.ne (old, new) (by simp) (old, new) (by simp)

theorem applyEach_of_applies (h : Separate pairs) (ha : (ofPairs pairs).Applies c) :
    ∃ each, applyEach pairs c = .success each ∧ each.config = ((ofPairs pairs).rename c).config ∧
      each.collisions.length = ((ofPairs pairs).rename c).collisions.length := by
  induction pairs using List.reverseRecOn with
  | nil => exact ⟨⟨c, []⟩, rfl, (rename_empty c).symm, rfl⟩
  | append_singleton pairs p ih =>
    obtain ⟨old, new⟩ := p
    obtain ⟨hr, ho⟩ := h.oneMore.applies_whole_iff.mp ha
    obtain ⟨done, hdone, hconfig, hlen⟩ := ih h.init hr
    have hnext : (ofPairs [(old, new)]).apply done.config =
        .success ((ofPairs [(old, new)]).rename done.config) :=
      apply_eq_success_iff.mpr ⟨hconfig ▸ (h.oneMore.applies_single_iff hr).mpr ho, rfl⟩
    refine ⟨⟨((ofPairs [(old, new)]).rename done.config).config,
      done.collisions ++ ((ofPairs [(old, new)]).rename done.config).collisions⟩, ?_, ?_, ?_⟩
    · rw [applyEach_concat, hdone, Validation.andThen, applyPair, hnext, Validation.map]
    · rw [hconfig, h.oneMore.config_eq hr ho]
    · rw [List.length_append, hlen, hconfig, h.oneMore.length_collisions hr ho]

theorem applies_of_applyEach (h : Separate pairs) (he : applyEach pairs c = .success each) :
    (ofPairs pairs).Applies c := by
  induction pairs using List.reverseRecOn generalizing each with
  | nil => exact fun _ hm => absurd hm List.not_mem_nil
  | append_singleton pairs p ih =>
    obtain ⟨old, new⟩ := p
    rw [applyEach_concat] at he
    cases hdone : applyEach pairs c with
    | failure e =>
      rw [hdone] at he
      cases he
    | success done =>
      have hr := ih h.init hdone
      obtain ⟨done', hdone', hconfig, -⟩ := applyEach_of_applies h.init hr
      obtain rfl : done' = done := Validation.success.inj (hdone'.symm.trans hdone)
      rw [hdone, Validation.andThen, applyPair, hconfig] at he
      have hs : (ofPairs [(old, new)]).Applies ((ofPairs pairs).rename c).config := by
        rw [← isSuccess_apply_iff, Validation.isSuccess_iff, ← Validation.causes_map, he]
        rfl
      exact h.oneMore.applies_whole_iff.mpr ⟨hr, (h.oneMore.applies_single_iff hr).mp hs⟩

/-- When no new name is an old one, one renaming by all pairs goes through if and only if the
renamings by each pair in turn do, and then they leave the same configuration and tell as many
lines. -/
theorem apply_iff_applyEach (h : ∀ new ∈ r.values, new ∉ r) :
    ((r.apply c).isSuccess = true ↔ (applyEach r.entries c).isSuccess = true) ∧
    ∀ out each, r.apply c = .success out → applyEach r.entries c = .success each →
      each.config = out.config ∧ each.notices.length = out.notices.length := by
  have hr : ofPairs r.entries = r := Table.ofList_entries r
  have hsep : Separate r.entries := by
    refine ⟨r.nodup_keys, fun p hp q hq he => ?_⟩
    exact h p.2 (mem_values_iff.mpr ⟨p, hp, rfl⟩) (he ▸ List.mem_map_of_mem hq)
  constructor
  · rw [isSuccess_apply_iff]
    constructor
    · intro ha
      obtain ⟨each, he, -⟩ := applyEach_of_applies hsep (hr.symm ▸ ha)
      rw [he]
      rfl
    · intro hs
      cases he : applyEach r.entries c with
      | success each => exact hr ▸ applies_of_applyEach hsep he
      | failure e =>
        rw [he] at hs
        cases hs
  · intro out each hout heach
    obtain ⟨ha, rfl⟩ := apply_eq_success_iff.mp hout
    obtain ⟨each', he, hconfig, hlen⟩ := applyEach_of_applies hsep (hr.symm ▸ ha)
    obtain rfl : each' = each := Validation.success.inj (he.symm.trans heach)
    rw [hr] at hconfig hlen
    rw [Renamed.notices, Renamed.notices, List.length_map, List.length_map]
    exact ⟨hconfig, hlen⟩

theorem apply_iff_applyEach_pile :
    (∀ new ∈ (ofPairs pile).values, new ∉ ofPairs pile) ∧
    (ofPairs pile).apply sharedRing = .success ((ofPairs pile).rename sharedRing) ∧
    ∃ each, applyEach (ofPairs pile).entries sharedRing = .success each ∧
      each.config = ((ofPairs pile).rename sharedRing).config ∧
      each.notices.length = ((ofPairs pile).rename sharedRing).notices.length := by
  have hnew : ∀ new ∈ (ofPairs pile).values, new ∉ ofPairs pile := by decide
  have happ : (ofPairs pile).apply sharedRing = .success ((ofPairs pile).rename sharedRing) := by
    decide
  obtain ⟨hiff, hsame⟩ := apply_iff_applyEach (c := sharedRing) hnew
  cases heach : applyEach (ofPairs pile).entries sharedRing with
  | success each => exact ⟨hnew, happ, each, rfl, hsame _ each happ heach⟩
  | failure e =>
    have hs := hiff.mp (by rw [happ]; rfl)
    rw [heach] at hs
    cases hs

end TypeGraph.Renaming
