import TypeGraph.Proofs.Renaming.Types

/-! What becomes of every type of a renamed configuration. At each step the types handled so far
are either the origin of one seat or replaced in one collision, and never both. -/

namespace TypeGraph

namespace Arrangement

open Renaming

variable {types : Table String Fields} {r : Renaming} {done : List (String × String)}
  {name old new : String}

def origins (a : Arrangement) : List String := a.placed.values.map Seat.origin

def replaced (a : Arrangement) : List String := a.collisions.map Collision.replaced

theorem collisions_place (a : Arrangement) (hold : old ∈ types) (new : String) :
    (a.place types old new).collisions =
      a.collisions ++ ((a.placed.get? new).map fun seat => ⟨old, new, seat.origin⟩).toList := by
  obtain ⟨fields, hf⟩ := Table.mem_iff_exists_get?.mp hold
  obtain ⟨own, hs⟩ := Table.exists_slot? hold
  unfold place
  rw [hs, hf]
  cases a.placed.get? new with
  | none => exact (List.append_nil _).symm
  | some previous => rfl

section Balance

theorem perm_place (a : Arrangement) (hold : old ∈ types) (new : String) :
    ((a.place types old new).replaced ++ (a.place types old new).origins).Perm
      (old :: (a.replaced ++ a.origins)) := by
  obtain ⟨fields, hf⟩ := Table.mem_iff_exists_get?.mp hold
  obtain ⟨own, hs⟩ := Table.exists_slot? hold
  rw [replaced, collisions_place a hold, List.map_append, ← replaced, origins,
    placed_place a new hs hf]
  cases hp : a.placed.get? new with
  | none =>
    rw [Table.values_insert_of_notMem (Table.get?_eq_none_iff.mp hp), List.map_append, ← origins,
      ← List.append_assoc, Option.map_none, Option.toList_none, List.map_nil, List.append_nil]
    exact List.perm_append_singleton old _
  | some previous =>
    -- The seat passes to `old`, and the type that held it goes to the collisions.
    have hswap := (Table.perm_values_insert ⟨previous.slot, old, fields⟩ hp).map Seat.origin
    have hmid := (hswap.append_left a.replaced).trans List.perm_middle
    rw [List.append_assoc]
    exact hmid

theorem perm_placeAll (a : Arrangement) {pairs : List (String × String)}
    (h : ∀ p ∈ pairs, p.1 ∈ types) :
    ((a.placeAll types pairs).replaced ++ (a.placeAll types pairs).origins).Perm
      (pairs.map Prod.fst ++ (a.replaced ++ a.origins)) := by
  induction pairs generalizing a with
  | nil => exact List.Perm.refl _
  | cons p pairs ih =>
    have hrest := ih (a.place types p.1 p.2) fun q hq => h q (List.mem_cons_of_mem _ hq)
    have hstep := perm_place a (h p (List.mem_cons_self ..)) p.2
    exact (hrest.trans (hstep.append_left _)).trans List.perm_middle

theorem origins_start (types : Table String Fields) (r : Renaming) :
    (start types r).origins = (start types r).placed.keys := by
  rw [origins, Table.values, Table.keys, List.map_map]
  refine List.map_congr_left fun e he => ?_
  exact (get?_start_eq_some_iff.mp (Table.get?_eq_some_iff.mpr he)).2.1

end Balance

section Collisions

theorem collisions_placeAll_concat (h : ∀ p ∈ done ++ [(old, new)], p.1 ∈ types) :
    ((start types r).placeAll types (done ++ [(old, new)])).collisions =
      ((start types r).placeAll types done).collisions ++
        if r.Keeps types new ∨ ∃ p ∈ done, p.2 = new then [⟨old, new, bearer done new⟩]
        else [] := by
  have hseated : Seated types r done ((start types r).placeAll types done).placed :=
    seated_placeAll fun p hp => h p (List.mem_append_left _ hp)
  have hold : old ∈ types := h (old, new) (by simp)
  rw [placeAll_concat, collisions_place _ hold]
  congr 1
  cases hp : ((start types r).placeAll types done).placed.get? new with
  | none =>
    rw [if_neg fun hm => Table.get?_eq_none_iff.mp hp ((hseated.mem_iff new).mpr hm)]
    rfl
  | some previous =>
    rw [if_pos ((hseated.mem_iff new).mp (Table.mem_of_get?_eq_some hp)), ← hseated.origin hp]
    rfl

theorem exists_of_mem_collisions (h : ∀ p ∈ done, p.1 ∈ types) {x : Collision}
    (hx : x ∈ ((start types r).placeAll types done).collisions) :
    ∃ before after, done = before ++ (x.old, x.new) :: after ∧
      x.replaced = bearer before x.new := by
  induction done using List.reverseRecOn with
  | nil => exact absurd hx List.not_mem_nil
  | append_singleton done p ih =>
    obtain ⟨old, new⟩ := p
    rw [collisions_placeAll_concat h] at hx
    rcases List.mem_append.mp hx with hx | hx
    · obtain ⟨before, after, rfl, hreplaced⟩ := ih (fun p hp => h p (List.mem_append_left _ hp)) hx
      exact ⟨before, after ++ [(old, new)], by simp, hreplaced⟩
    · split at hx
      · obtain rfl := List.mem_singleton.mp hx
        exact ⟨done, [], rfl, rfl⟩
      · exact absurd hx List.not_mem_nil

theorem lastOld?_of_last_collision (h : ∀ p ∈ done, p.1 ∈ types) {x : Collision}
    (hx : (((start types r).placeAll types done).collisions.filter fun y => y.new = name).getLast? =
      some x) : lastOld? done name = some x.old := by
  induction done using List.reverseRecOn with
  | nil => cases hx
  | append_singleton done p ih =>
    obtain ⟨old, new⟩ := p
    have hdone : ∀ p ∈ done, p.1 ∈ types := fun p hp => h p (List.mem_append_left _ hp)
    rw [collisions_placeAll_concat h, List.filter_append] at hx
    rw [lastOld?_concat]
    by_cases hn : new = name
    · subst hn
      rw [if_pos rfl]
      split at hx
      · have hself : [(⟨old, new, bearer done new⟩ : Collision)].filter (fun y => y.new = new) =
            [⟨old, new, bearer done new⟩] := by simp
        rw [hself, List.getLast?_concat, Option.some.injEq] at hx
        rw [← hx]
      · next hfree =>
        -- No collision is about a name that was free until now.
        rw [List.filter_nil, List.append_nil] at hx
        obtain ⟨hmem, hname⟩ := List.mem_filter.mp (List.mem_of_getLast? hx)
        obtain ⟨before, after, hsplit, -⟩ := exists_of_mem_collisions hdone hmem
        refine absurd (.inr ⟨(x.old, x.new), ?_, of_decide_eq_true hname⟩) hfree
        rw [hsplit]
        simp
    · rw [if_neg hn]
      refine ih hdone ?_
      have hrest : (if r.Keeps types new ∨ ∃ p ∈ done, p.2 = new then
          [(⟨old, new, bearer done new⟩ : Collision)] else []).filter
            (fun y => y.new = name) = [] := by
        split <;> simp [hn]
      rwa [hrest, List.append_nil] at hx

theorem collisions_placeAll_of_nodup (h : ∀ p ∈ done, p.1 ∈ types)
    (hn : (done.map Prod.snd).Nodup) :
    ((start types r).placeAll types done).collisions =
      (done.filter fun p => r.Keeps types p.2).map fun p => ⟨p.1, p.2, p.2⟩ := by
  induction done using List.reverseRecOn with
  | nil => rfl
  | append_singleton done p ih =>
    obtain ⟨old, new⟩ := p
    rw [List.map_append, List.nodup_append'] at hn
    have hfree : ∀ p ∈ done, p.2 ≠ new := by
      rintro p hp rfl
      exact hn.2.2 (List.mem_map_of_mem hp) (List.mem_singleton_self _)
    have hbearer : bearer done new = new := by
      rw [bearer, lastOld?_eq_none_iff.mpr hfree, Option.getD_none]
    have hcond : (r.Keeps types new ∨ ∃ p ∈ done, p.2 = new) ↔ r.Keeps types new := by
      refine or_iff_left ?_
      rintro ⟨p, hp, he⟩
      exact hfree p hp he
    rw [collisions_placeAll_concat h, ih (fun p hp => h p (List.mem_append_left _ hp)) hn.1,
      List.filter_append, List.map_append, hbearer]
    by_cases hk : r.Keeps types new
    · rw [if_pos (hcond.mpr hk)]
      simp [hk]
    · rw [if_neg (mt hcond.mp hk)]
      simp [hk]

end Collisions

end Arrangement

namespace Renaming

open Arrangement

variable {r : Renaming} {c : Config} {out : Renamed} {name old old' : String}

/-- Every type is the origin of one seat or replaced in one collision. -/
theorem perm_types (h : r.Applies c) :
    ((Arrangement.of c.types r).replaced ++ (Arrangement.of c.types r).origins).Perm
      c.types.keys := by
  refine (perm_placeAll (start c.types r) h.fst_mem).trans ?_
  have hkept : ∀ name, name ∈ (start c.types r).placed ↔ r.Keeps c.types name := fun name => by
    simpa using (seated_start c.types r).mem_iff name
  have hnew : (r.keys ++ (start c.types r).placed.keys).Nodup := by
    refine List.nodup_append'.mpr ⟨r.nodup_keys, (start c.types r).placed.nodup_keys, ?_⟩
    exact fun name hr hm => ((hkept name).mp hm).2 hr
  rw [origins_start, replaced, start, List.map_nil, List.nil_append]
  refine (List.perm_ext_iff_of_nodup hnew c.types.nodup_keys).mpr fun name => ?_
  rw [List.mem_append]
  constructor
  · rintro (hr | hm)
    · exact h name hr
    · exact ((hkept name).mp hm).1
  · intro hm
    by_cases hr : name ∈ r
    · exact .inl hr
    · exact .inr ((hkept name).mpr ⟨hm, hr⟩)

theorem mem_origins_iff (h : r.Applies c) :
    old ∈ (Arrangement.of c.types r).origins ↔
      ∃ name ∈ (r.rename c).config.types, r.EndsUnder old name := by
  simp only [origins, Table.values, List.map_map, List.mem_map, Function.comp_apply, Prod.exists,
    ← Table.get?_eq_some_iff]
  constructor
  · rintro ⟨name, seat, hs, rfl⟩
    have hm : name ∈ (r.rename c).config.types :=
      (mem_rename_iff_placed h).mpr (Table.mem_of_get?_eq_some hs)
    exact ⟨name, hm, h.seated.origin hs ▸ endsUnder_bearer h hm⟩
  · rintro ⟨name, hm, hends⟩
    obtain ⟨seat, hs⟩ := Table.mem_iff_exists_get?.mp ((mem_rename_iff_placed h).mp hm)
    exact ⟨name, seat, hs, (h.seated.origin hs).trans hends.eq_bearer.symm⟩

theorem nodup_replaced (h : r.Applies c) : (Arrangement.of c.types r).replaced.Nodup :=
  (List.nodup_append.mp ((perm_types h).nodup_iff.mpr c.types.nodup_keys)).1

theorem mem_replaced_iff (h : r.Applies c) :
    old ∈ (Arrangement.of c.types r).replaced ↔
      old ∈ c.types ∧ ¬ ∃ name ∈ (r.rename c).config.types, r.EndsUnder old name := by
  have hn := (perm_types h).nodup_iff.mpr c.types.nodup_keys
  have hm : old ∈ c.types ↔ old ∈ (Arrangement.of c.types r).replaced ∨
      old ∈ (Arrangement.of c.types r).origins := by
    rw [← List.mem_append]
    exact (perm_types h).mem_iff.symm
  rw [← mem_origins_iff h, hm]
  constructor
  · exact fun hr => ⟨.inl hr, (List.nodup_append'.mp hn).2.2 hr⟩
  · rintro ⟨hr | ho, hno⟩
    · exact hr
    · exact absurd ho hno

theorem size_rename (h : r.Applies c) :
    (r.rename c).config.types.size = (Arrangement.of c.types r).placed.size :=
  Table.size_eq_of_mem_iff fun _ => mem_rename_iff_placed h

theorem length_collisions_add_size (h : r.Applies c) :
    (r.rename c).collisions.length + (r.rename c).config.types.size = c.types.size := by
  have hlen := (perm_types h).length_eq
  rw [List.length_append, replaced, origins, Table.values, Table.keys, List.length_map,
    List.length_map, List.length_map, List.length_map] at hlen
  rw [size_rename h]
  exact hlen

theorem bearer_resolve (h : r.Applies c) (hq : (r.rename c).collisions = []) (ho : old ∈ c.types) :
    bearer r.entries (r.resolve old) = old := by
  have hkept : old ∉ (Arrangement.of c.types r).replaced := by
    rw [replaced, show (Arrangement.of c.types r).collisions = [] from hq]
    exact List.not_mem_nil
  have hends : ∃ name ∈ (r.rename c).config.types, r.EndsUnder old name := by
    by_contra hno
    exact hkept ((mem_replaced_iff h).mpr ⟨ho, hno⟩)
  obtain ⟨name, hm, hold⟩ := hends
  have hname := resolve_bearer h hm
  rw [← hold.eq_bearer] at hname
  rw [hname]
  exact hold.eq_bearer.symm

theorem resolve_inj (h : r.Applies c) (hq : (r.rename c).collisions = []) (ho : old ∈ c.types)
    (ho' : old' ∈ c.types) (he : r.resolve old = r.resolve old') : old = old' := by
  rw [← bearer_resolve h hq ho, he, bearer_resolve h hq ho']

theorem collisions_eq_nil_of_inj (h : r.Applies c)
    (hinj : ∀ old ∈ c.types, ∀ old' ∈ c.types, r.resolve old = r.resolve old' → old = old') :
    (r.rename c).collisions = [] := by
  rw [List.eq_nil_iff_forall_not_mem]
  intro x hx
  obtain ⟨ho, hno⟩ := (mem_replaced_iff h).mp (List.mem_map_of_mem hx)
  have hm := resolve_mem_rename h ho
  have hbearer : bearer r.entries (r.resolve x.replaced) = x.replaced :=
    hinj _ (bearer_mem h hm) _ ho (resolve_bearer h hm)
  have hends := endsUnder_bearer h hm
  rw [hbearer] at hends
  exact hno ⟨_, hm, hends⟩

end Renaming
end TypeGraph
