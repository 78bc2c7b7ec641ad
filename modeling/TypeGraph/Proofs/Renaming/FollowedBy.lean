import TypeGraph.Proofs.Renaming.Order
import TypeGraph.Proofs.Renaming.Roots
import TypeGraph.Proofs.Renaming.Told
import TypeGraph.Proofs.Renaming.Twice

/-! One renaming for two in turn. A renaming without a collision and any other one after it have
the effect of a single renaming. -/

namespace TypeGraph.Renaming

variable {r s : Renaming} {c : Config} {first second : Renamed} {name mid old old' : String}

/-- The pairs of `r` whose new name `s` leaves alone, then the pairs of `s`, each with the old
name that `r` renamed to its own if there is one. -/
def followedBy (r s : Renaming) : Renaming :=
  ofPairs ((r.entries.filter fun p => p.2 ∉ s) ++
    s.entries.map fun p => (bearer r.entries p.1, p.2))

/-- Two renamings that can be made in turn. The first one has no collision, and gives no type a
name that was used without a type. -/
structure InTurn (c : Config) (r s : Renaming) : Prop where
  first : r.Applies c
  second : s.Applies (r.rename c).config
  quiet : (r.rename c).collisions = []
  fresh : ∀ new ∈ r.values, c.Mentions new → new ∈ c.types

namespace InTurn

theorem bearer_mem (h : InTurn c r s) (hm : mid ∈ s) : bearer r.entries mid ∈ c.types :=
  Renaming.bearer_mem h.first (h.second mid hm)

theorem resolve_bearer (h : InTurn c r s) (hm : mid ∈ s) :
    r.resolve (bearer r.entries mid) = mid := Renaming.resolve_bearer h.first (h.second mid hm)

theorem eq_of_resolve_eq (h : InTurn c r s) (ho : c.Occurs old) (ho' : c.Occurs old')
    (he : r.resolve old = r.resolve old') : old = old' := by
  have hnew : ∀ {a b}, c.Occurs b → a ∈ r → b ∉ r → r.resolve a = r.resolve b → a = b := by
    intro a b hb ha hb' hab
    have hval : b ∈ r.values := by
      rw [resolve_of_notMem hb'] at hab
      exact mem_values_iff.mpr ⟨_, mem_entries_resolve ha, hab⟩
    exact resolve_inj h.first h.quiet (h.first a ha) (hb.elim id (h.fresh b hval)) hab
  by_cases hr : old ∈ r <;> by_cases hr' : old' ∈ r
  · exact resolve_inj h.first h.quiet (h.first old hr) (h.first old' hr') he
  · exact hnew ho' hr hr' he
  · exact (hnew ho hr' hr he.symm).symm
  · rwa [resolve_of_notMem hr, resolve_of_notMem hr'] at he

theorem nodup_roots (h : InTurn c r s) (hn : c.roots.names.Nodup) :
    (c.roots.map r.resolve).names.Nodup := by
  rw [Roots.names_map]
  exact List.Nodup.map_on
    (fun _ ha _ hb he => h.eq_of_resolve_eq (.inr (.inr ha)) (.inr (.inr hb)) he) hn

theorem entries_followedBy (h : InTurn c r s) :
    (r.followedBy s).entries = (r.entries.filter fun p => p.2 ∉ s) ++
      s.entries.map fun p => (bearer r.entries p.1, p.2) := by
  refine Table.entries_ofList ?_
  rw [List.map_append, List.map_map, List.nodup_append']
  refine ⟨r.nodup_keys.sublist (List.filter_sublist.map Prod.fst), ?_, ?_⟩
  · have hinj : ∀ mid ∈ s, ∀ mid' ∈ s,
        bearer r.entries mid = bearer r.entries mid' → mid = mid' := by
      intro mid hm mid' hm' he
      rw [← h.resolve_bearer hm, he, h.resolve_bearer hm']
    have hn := List.Nodup.map_on hinj s.nodup_keys
    rwa [Table.keys, List.map_map] at hn
  · intro old ho hb
    obtain ⟨p, hp, rfl⟩ := List.mem_map.mp ho
    obtain ⟨hp, hnot⟩ := List.mem_filter.mp hp
    obtain ⟨q, hq, he⟩ := List.mem_map.mp hb
    have hqs : q.1 ∈ s := List.mem_map_of_mem hq
    have hback : r.resolve p.1 = q.1 := he ▸ h.resolve_bearer hqs
    rw [resolve_of_mem hp] at hback
    exact of_decide_eq_true hnot (hback ▸ hqs)

theorem mem_followedBy_iff (h : InTurn c r s) :
    name ∈ r.followedBy s ↔
      (name ∈ r ∧ r.resolve name ∉ s) ∨ ∃ mid ∈ s, bearer r.entries mid = name := by
  rw [Table.mem_iff, h.entries_followedBy, List.map_append, List.mem_append]
  refine or_congr ⟨?_, ?_⟩ ⟨?_, ?_⟩
  · intro hm
    obtain ⟨p, hp, rfl⟩ := List.mem_map.mp hm
    obtain ⟨hp, hnot⟩ := List.mem_filter.mp hp
    exact ⟨List.mem_map_of_mem hp, resolve_of_mem hp ▸ of_decide_eq_true hnot⟩
  · rintro ⟨hr, hnot⟩
    have hp : (name, r.resolve name) ∈ r.entries.filter fun p => p.2 ∉ s :=
      List.mem_filter.mpr ⟨mem_entries_resolve hr, decide_eq_true hnot⟩
    exact List.mem_map.mpr ⟨_, hp, rfl⟩
  · intro hm
    rw [List.map_map] at hm
    obtain ⟨q, hq, rfl⟩ := List.mem_map.mp hm
    exact ⟨q.1, List.mem_map_of_mem hq, rfl⟩
  · rintro ⟨mid, hm, rfl⟩
    obtain ⟨q, hq, rfl⟩ := List.mem_map.mp hm
    rw [List.map_map]
    exact List.mem_map.mpr ⟨q, hq, rfl⟩

theorem applies_followedBy (h : InTurn c r s) : (r.followedBy s).Applies c := by
  intro name hm
  rcases h.mem_followedBy_iff.mp hm with ⟨hr, -⟩ | ⟨mid, hmid, rfl⟩
  · exact h.first name hr
  · exact h.bearer_mem hmid

theorem bearer_of_resolve_mem (h : InTurn c r s) (ho : c.Occurs name) (hs : r.resolve name ∈ s) :
    bearer r.entries (r.resolve name) = name :=
  h.eq_of_resolve_eq (.inl (h.bearer_mem hs)) ho (h.resolve_bearer hs)

theorem mem_followedBy_iff_of_occurs (h : InTurn c r s) (ho : c.Occurs name) :
    name ∈ r.followedBy s ↔ name ∈ r ∨ r.resolve name ∈ s := by
  rw [h.mem_followedBy_iff]
  constructor
  · rintro (⟨hr, -⟩ | ⟨mid, hm, rfl⟩)
    · exact .inl hr
    · exact .inr ((h.resolve_bearer hm).symm ▸ hm)
  · intro hm
    by_cases hs : r.resolve name ∈ s
    · exact .inr ⟨_, hs, h.bearer_of_resolve_mem ho hs⟩
    · exact .inl ⟨hm.resolve_right hs, hs⟩

theorem resolve_followedBy (h : InTurn c r s) (ho : c.Occurs name) :
    (r.followedBy s).resolve name = s.resolve (r.resolve name) := by
  by_cases hs : r.resolve name ∈ s
  · have hp : (name, s.resolve (r.resolve name)) ∈ (r.followedBy s).entries := by
      rw [h.entries_followedBy]
      refine List.mem_append_right _ (List.mem_map.mpr ⟨_, mem_entries_resolve hs, ?_⟩)
      rw [h.bearer_of_resolve_mem ho hs]
    exact resolve_of_mem hp
  · rw [resolve_of_notMem hs]
    by_cases hr : name ∈ r
    · have hp : (name, r.resolve name) ∈ (r.followedBy s).entries := by
        rw [h.entries_followedBy]
        exact List.mem_append_left _
          (List.mem_filter.mpr ⟨mem_entries_resolve hr, decide_eq_true hs⟩)
      exact resolve_of_mem hp
    · have hnot : name ∉ r.followedBy s := fun hm =>
        ((h.mem_followedBy_iff_of_occurs ho).mp hm).elim hr hs
      rw [resolve_of_notMem hr, resolve_of_notMem hnot]

theorem lastOld?_followedBy (h : InTurn c r s) (name : String) :
    lastOld? (r.followedBy s).entries name =
      ((lastOld? s.entries name).map (bearer r.entries)).or
        (if name ∉ s then lastOld? r.entries name else none) := by
  rw [h.entries_followedBy, lastOld?_append, lastOld?_map, lastOld?_filter (· ∉ s)]

theorem firstOld?_followedBy (h : InTurn c r s) (name : String) :
    firstOld? (r.followedBy s).entries name =
      (if name ∉ s then firstOld? r.entries name else none).or
        ((firstOld? s.entries name).map (bearer r.entries)) := by
  rw [h.entries_followedBy, firstOld?_append, firstOld?_map, firstOld?_filter (· ∉ s)]

theorem bearer_eq (h : InTurn c r s)
    (hm : name ∈ (s.rename (r.rename c).config).config.types) :
    bearer (r.followedBy s).entries name = bearer r.entries (bearer s.entries name) := by
  cases hlast : lastOld? s.entries name with
  | some mid =>
    have hs : bearer s.entries name = mid := by rw [bearer, hlast, Option.getD_some]
    rw [hs, bearer, h.lastOld?_followedBy, hlast, Option.map_some, Option.some_or, Option.getD_some]
  | none =>
    -- No pair of `s` leads to the name, so `s` leaves it alone.
    have hkept := keeps_of_lastOld?_eq_none h.second hm hlast
    have hs : bearer s.entries name = name := by rw [bearer, hlast, Option.getD_none]
    rw [hs, bearer, h.lastOld?_followedBy, hlast, Option.map_none, Option.none_or,
      if_pos hkept.2, ← bearer]

theorem keeps_followedBy_iff (h : InTurn c r s) :
    (r.followedBy s).Keeps c.types name ↔ r.Keeps c.types name ∧ name ∉ s := by
  constructor
  · rintro ⟨ht, hnot⟩
    rw [h.mem_followedBy_iff_of_occurs (.inl ht), not_or] at hnot
    exact ⟨⟨ht, hnot.1⟩, resolve_of_notMem hnot.1 ▸ hnot.2⟩
  · rintro ⟨⟨ht, hr⟩, hs⟩
    refine ⟨ht, fun hm => ?_⟩
    rcases (h.mem_followedBy_iff_of_occurs (.inl ht)).mp hm with hr' | hs'
    · exact hr hr'
    · exact hs (resolve_of_notMem hr ▸ hs')

theorem holder_eq_bearer (h : InTurn c r s) (hm : name ∈ (r.rename c).config.types) :
    holder c.types r r.entries name = bearer r.entries name := by
  refine resolve_inj h.first h.quiet (holder_mem h.first hm) (Renaming.bearer_mem h.first hm) ?_
  rw [resolve_holder h.first hm, Renaming.resolve_bearer h.first hm]

theorem holder_of_keeps (h : InTurn c r s) (hk : s.Keeps (r.rename c).config.types name) :
    holder c.types (r.followedBy s) (r.followedBy s).entries name =
      holder c.types r r.entries name := by
  obtain ⟨hm, hs⟩ := hk
  by_cases hr : r.Keeps c.types name
  · rw [holder, holder, if_pos hr, if_pos (h.keeps_followedBy_iff.mpr ⟨hr, hs⟩)]
  · obtain ⟨o, hfirst⟩ := exists_firstOld?_of_not_keeps h.first hm hr
    rw [holder, holder, if_neg hr, if_neg fun ht => hr (h.keeps_followedBy_iff.mp ht).1,
      h.firstOld?_followedBy, if_pos hs, hfirst, Option.some_or]

theorem holder_of_firstOld? (h : InTurn c r s) (hk : ¬ s.Keeps (r.rename c).config.types name)
    (hfirst : firstOld? s.entries name = some mid) :
    holder c.types (r.followedBy s) (r.followedBy s).entries name = bearer r.entries mid := by
  have hrest : (if name ∉ s then firstOld? r.entries name else none) = none := by
    split
    · next hs =>
      -- A pair of `r` with this new name would leave a type that `s` keeps.
      refine firstOld?_eq_none_iff.mpr fun p hp he => hk ⟨?_, hs⟩
      exact (mem_rename_iff_keeps h.first).mpr (.inr ⟨p, hp, he⟩)
    · rfl
  have hnot : ¬ (r.followedBy s).Keeps c.types name := by
    intro ht
    obtain ⟨hr, hs⟩ := h.keeps_followedBy_iff.mp ht
    exact hk ⟨(mem_rename_iff_keeps h.first).mpr (.inl hr), hs⟩
  rw [holder, if_neg hnot, h.firstOld?_followedBy, hrest, hfirst, Option.none_or, Option.map_some,
    Option.getD_some]

theorem holder_eq (h : InTurn c r s)
    (hm : name ∈ (s.rename (r.rename c).config).config.types) :
    holder c.types (r.followedBy s) (r.followedBy s).entries name =
      holder c.types r r.entries (holder (r.rename c).config.types s s.entries name) := by
  by_cases hk : s.Keeps (r.rename c).config.types name
  · have hs : holder (r.rename c).config.types s s.entries name = name := by rw [holder, if_pos hk]
    rw [hs, h.holder_of_keeps hk]
  · obtain ⟨mid, hfirst⟩ := exists_firstOld?_of_not_keeps h.second hm hk
    have hs : holder (r.rename c).config.types s s.entries name = mid := by
      rw [holder, if_neg hk, hfirst, Option.getD_some]
    have hmid : mid ∈ s := List.mem_map.mpr ⟨_, mem_of_firstOld? hfirst, rfl⟩
    rw [hs, h.holder_of_firstOld? hk hfirst, h.holder_eq_bearer (h.second mid hmid)]

theorem factors (h : InTurn c r s) : Factors c r s (r.followedBy s) where
  first := h.first
  second := h.second
  whole := h.applies_followedBy
  resolve _ ho := h.resolve_followedBy (ho.imp_right .inl)
  bearer _ hm := h.bearer_eq hm
  holder _ hm := h.holder_eq hm

theorem renameRoots_eq (h : InTurn c r s) (hn : c.roots.names.Nodup) :
    (r.followedBy s).renameRoots c.roots = s.renameRoots (r.renameRoots c.roots) := by
  rw [renameRoots_of_nodup _ hn, renameRoots_of_nodup _ hn,
    renameRoots_of_nodup _ (h.nodup_roots hn), Roots.map_map]
  exact Roots.map_congr fun name hm => h.resolve_followedBy (.inr (.inr hm))

theorem config_eq (h : InTurn c r s) (hn : c.roots.names.Nodup) :
    ((r.followedBy s).rename c).config = (s.rename (r.rename c).config).config :=
  Config.ext h.factors.types_eq (h.renameRoots_eq hn)

end InTurn

/-- A renaming that tells nothing and gives no type a name that was used without one, and then any
renaming: together they leave what the pairs of both leave when they are applied once. -/
theorem apply_followedBy (hn : c.roots.names.Nodup) (hr : r.apply c = .success first)
    (hq : first.notices = []) (hfresh : ∀ new ∈ r.values, c.Mentions new → new ∈ c.types)
    (hs : s.apply first.config = .success second) :
    ∃ out, (r.followedBy s).apply c = .success out ∧ out.config = second.config := by
  obtain ⟨ha, rfl⟩ := apply_eq_success_iff.mp hr
  obtain ⟨ha', rfl⟩ := apply_eq_success_iff.mp hs
  have h : InTurn c r s := ⟨ha, ha', notices_eq_nil_iff.mp hq, hfresh⟩
  exact ⟨_, apply_eq_success_iff.mpr ⟨h.applies_followedBy, rfl⟩, h.config_eq hn⟩

def twoRootRing : Config := { ring with roots := { query := some "A", mutation := some "B" } }

theorem apply_followedBy_ring :
    twoRootRing.roots.names.Nodup ∧
    (ofPairs cycle).apply twoRootRing = .success ((ofPairs cycle).rename twoRootRing) ∧
    ((ofPairs cycle).rename twoRootRing).notices = [] ∧
    (∀ new ∈ (ofPairs cycle).values, twoRootRing.Mentions new → new ∈ twoRootRing.types) ∧
    (ofPairs chain).apply ((ofPairs cycle).rename twoRootRing).config =
      .success ((ofPairs chain).rename ((ofPairs cycle).rename twoRootRing).config) ∧
    ∃ out, ((ofPairs cycle).followedBy (ofPairs chain)).apply twoRootRing = .success out ∧
      out.config = ((ofPairs chain).rename ((ofPairs cycle).rename twoRootRing).config).config := by
  have hroots : twoRootRing.roots.names.Nodup := by decide
  have hcycle : (ofPairs cycle).apply twoRootRing =
      .success ((ofPairs cycle).rename twoRootRing) := by decide
  have hquiet : ((ofPairs cycle).rename twoRootRing).notices = [] := by decide
  have htypes : ∀ new ∈ (ofPairs cycle).values, new ∈ twoRootRing.types := by decide
  have hchain : (ofPairs chain).apply ((ofPairs cycle).rename twoRootRing).config =
      .success ((ofPairs chain).rename ((ofPairs cycle).rename twoRootRing).config) := by decide
  exact ⟨hroots, hcycle, hquiet, fun new hm _ => htypes new hm, hchain,
    apply_followedBy hroots hcycle hquiet (fun new hm _ => htypes new hm) hchain⟩

end TypeGraph.Renaming
