import TypeGraph.Proofs.Lookup

/-! Tables with the same keys in the same order whose values correspond, and runs of a function
over the values of a table. -/

namespace TypeGraph

def Table.Alike {κ α β : Type} (R : α → β → Prop) (s : Table κ α) (t : Table κ β) : Prop :=
  List.Forall₂ (fun d e => e.1 = d.1 ∧ R d.2 e.2) s.entries t.entries

theorem Table.alike_map {κ α β : Type} {R : α → β → Prop} {f : α → β} (h : ∀ a, R a (f a))
    (t : Table κ α) : t.Alike R (t.map f) := by
  unfold Alike map mapWithKey
  rw [List.forall₂_map_right_iff, List.forall₂_same]
  exact fun e _ => ⟨rfl, h e.2⟩

theorem Table.alike_map_left_iff {κ α β γ : Type} {R : β → γ → Prop} {f : α → β} {s : Table κ α}
    {t : Table κ γ} : (s.map f).Alike R t ↔ s.Alike (fun a c => R (f a) c) t := by
  unfold Alike map mapWithKey
  rw [List.forall₂_map_left_iff]

variable {κ α β ε : Type}

theorem Table.Alike.mono {R S : α → β → Prop} {s : Table κ α} {t : Table κ β} (h : s.Alike R t)
    (hRS : ∀ a b, R a b → S a b) : s.Alike S t :=
  List.Forall₂.imp (fun _ _ he => ⟨he.1, hRS _ _ he.2⟩) h

theorem Table.Alike.exists_of_mem {R : α → β → Prop} {s : Table κ α} {t : Table κ β}
    (h : s.Alike R t) {e : κ × β} (he : e ∈ t.entries) :
    ∃ d ∈ s.entries, e.1 = d.1 ∧ R d.2 e.2 := by
  unfold Alike at h
  generalize s.entries = ds, t.entries = es at h he
  induction h with
  | nil => cases he
  | cons hd _ ih =>
    rcases List.mem_cons.mp he with rfl | he
    · exact ⟨_, List.mem_cons_self .., hd⟩
    · obtain ⟨d, hm, hd⟩ := ih he
      exact ⟨d, List.mem_cons_of_mem _ hm, hd⟩

theorem Table.map_fst_eq_of_forall₂ {es : List (κ × α)} {es' : List (κ × β)}
    (h : List.Forall₂ (fun d e => e.1 = d.1) es es') : es'.map Prod.fst = es.map Prod.fst := by
  have hkeys : List.Forall₂ Eq (es'.map Prod.fst) (es.map Prod.fst) := by
    rw [List.forall₂_map_left_iff, List.forall₂_map_right_iff]
    exact List.Forall₂.flip h
  rwa [List.forall₂_eq_eq_eq] at hkeys

section Outcomes

variable {x : Except ε α}

def fault? : Except ε α → Option ε
  | .ok _ => none
  | .error e => some e

theorem fault?_eq_some_iff {e : ε} : fault? x = some e ↔ x = .error e := by
  cases x <;> simp [fault?]

theorem exists_eq_ok_iff : (∃ a, x = .ok a) ↔ fault? x = none := by
  cases x <;> simp [fault?]

theorem bind_eq_ok_iff {next : α → Except ε β} {b : β} :
    x >>= next = .ok b ↔ ∃ a, x = .ok a ∧ next a = .ok b := by
  cases x <;> simp [bind, Except.bind]

@[simp]
theorem fault?_map (f : α → β) : fault? (x.map f) = fault? x := by
  cases x <;> rfl

end Outcomes

namespace Table

def runEntries (f : α → Except ε β) (es : List (κ × α)) : Except ε (List (κ × β)) :=
  es.mapM fun e => do return (e.1, ← f e.2)

variable {f : α → Except ε β}

theorem runEntries_cons (k : κ) (a : α) (es : List (κ × α)) :
    runEntries f ((k, a) :: es) = do return (k, ← f a) :: (← runEntries f es) := by
  unfold runEntries
  rw [List.mapM_cons]
  cases f a <;> rfl

theorem runEntries_eq_ok_iff {es : List (κ × α)} {es' : List (κ × β)} :
    runEntries f es = .ok es' ↔
      List.Forall₂ (fun d e => e.1 = d.1 ∧ f d.2 = .ok e.2) es es' := by
  induction es generalizing es' with
  | nil => cases es' <;> simp [runEntries, pure, Except.pure]
  | cons e es ih =>
    obtain ⟨k, a⟩ := e
    simp only [runEntries_cons, bind_eq_ok_iff, List.forall₂_cons_left_iff, ← ih, pure,
      Except.pure, Except.ok.injEq]
    constructor
    · rintro ⟨b, hb, rest, hrest, rfl⟩
      exact ⟨(k, b), rest, ⟨rfl, hb⟩, hrest, rfl⟩
    · rintro ⟨⟨_, b⟩, rest, ⟨rfl, hb⟩, hrest, rfl⟩
      exact ⟨b, hb, rest, hrest, rfl⟩

variable [DecidableEq κ]

theorem mapM_eq_runEntries (f : α → Except ε β) (s : Table κ α) :
    (s.mapM fun _ => f) = (runEntries f s.entries).map ofList := rfl

theorem mapM_eq_ok_iff {s : Table κ α} {t : Table κ β} :
    (s.mapM fun _ => f) = .ok t ↔ s.Alike (fun a b => f a = .ok b) t := by
  rw [mapM_eq_runEntries, Alike, ← runEntries_eq_ok_iff]
  cases hes : runEntries f s.entries with
  | error e => simp [Except.map]
  | ok es =>
    have hkeys := map_fst_eq_of_forall₂ ((runEntries_eq_ok_iff.mp hes).imp fun _ _ he => he.1)
    have hnodup : (es.map Prod.fst).Nodup := hkeys ▸ s.nodup_keys
    simp only [Except.map, Except.ok.injEq]
    rw [Table.ext_iff, entries_ofList hnodup]

@[simp]
theorem fault?_mapM (f : α → Except ε β) (s : Table κ α) :
    fault? (s.mapM fun _ => f) = s.values.findSome? fun a => fault? (f a) := by
  rw [mapM_eq_runEntries, fault?_map, values, List.findSome?_map]
  induction s.entries with
  | nil => rfl
  | cons e es ih =>
    rw [runEntries_cons, List.findSome?_cons, ← ih, Function.comp_apply]
    cases f e.2 with
    | error e => rfl
    | ok b => cases runEntries f es <;> rfl

end Table
end TypeGraph
