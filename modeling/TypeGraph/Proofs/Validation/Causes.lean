import TypeGraph.Validation

/-! The causes and the value of a check that is put together from others. A checked list has those
of all its items: what the loop over the items gathers has a closed form. -/

namespace TypeGraph

variable {ε α β ι : Type}

namespace Validation

theorem isSuccess_eq_false_iff {v : Validation ε α} :
    v.isSuccess = false ↔ ∃ e, v = .failure e := by
  cases v <;> simp [isSuccess]

@[simp]
theorem value?_map (f : α → β) (v : Validation ε α) : (v.map f).value? = v.value?.map f := by
  cases v <;> rfl

@[simp]
theorem value?_andThen (f : α → Validation ε β) (v : Validation ε α) :
    (v.andThen f).value? = v.value?.bind fun a => (f a).value? := by
  cases v <;> rfl

@[simp]
theorem value?_zip (v : Validation ε α) (w : Validation ε β) :
    (v.zip w).value? = v.value?.bind fun a => w.value?.map fun b => (a, b) := by
  cases v <;> cases w <;> rfl

@[simp]
theorem value?_trace (segment : String) (v : Validation ε α) :
    (v.trace segment).value? = v.value? := by
  cases v <;> rfl

theorem value?_eq_none_iff {v : Validation ε α} : v.value? = none ↔ v.causes ≠ [] := by
  cases v with
  | success a => simp [value?, causes]
  | failure e => simpa [value?, causes] using e.causes_ne_nil

section Lists

def gather (outcomes : List (Validation ε α)) : Validation ε (List α) :=
  if h : outcomes.flatMap causes = [] then success (outcomes.filterMap value?)
  else failure ⟨outcomes.flatMap causes, h⟩

@[simp]
theorem causes_gather (outcomes : List (Validation ε α)) :
    (gather outcomes).causes = outcomes.flatMap causes := by
  unfold gather
  split
  · next h => exact h.symm
  · rfl

theorem value?_gather_cons (v : Validation ε α) (vs : List (Validation ε α)) :
    (gather (v :: vs)).value? = v.value?.bind fun a => (gather vs).value?.map (a :: ·) := by
  cases v with
  | failure e =>
    refine value?_eq_none_iff.mpr ?_
    rw [causes_gather, List.flatMap_cons]
    exact List.append_ne_nil_of_left_ne_nil e.causes_ne_nil _
  | success a =>
    unfold gather
    simp only [List.flatMap_cons, causes, List.nil_append]
    by_cases h : vs.flatMap causes = [] <;> simp [h, value?]

namespace Gathered

def causes (g : Gathered ε α) : List (Cause ε) :=
  match g.error with
  | some e => e.causes
  | none => []

theorem causes_add (g : Gathered ε α) (v : Validation ε α) :
    (g.add v).causes = g.causes ++ v.causes := by
  obtain ⟨values, error⟩ := g
  cases v with
  | success a => exact (List.append_nil _).symm
  | failure e => cases error <;> rfl

theorem values_add (g : Gathered ε α) (v : Validation ε α) :
    (g.add v).values.toList = g.values.toList ++ v.value?.toList := by
  obtain ⟨values, error⟩ := g
  cases v with
  | success a => exact Array.toList_push
  | failure e => cases error <;> exact (List.append_nil _).symm

theorem causes_foldl_add (g : Gathered ε α) (vs : List (Validation ε α)) :
    (vs.foldl add g).causes = g.causes ++ vs.flatMap Validation.causes := by
  induction vs generalizing g with
  | nil => exact (List.append_nil _).symm
  | cons v vs ih => rw [List.foldl_cons, ih, causes_add, List.flatMap_cons, List.append_assoc]

theorem values_foldl_add (g : Gathered ε α) (vs : List (Validation ε α)) :
    (vs.foldl add g).values.toList = g.values.toList ++ vs.filterMap value? := by
  induction vs generalizing g with
  | nil => exact (List.append_nil _).symm
  | cons v vs ih =>
    rw [List.foldl_cons, ih, values_add, List.append_assoc]
    cases v <;> rfl

theorem outcome_eq (g : Gathered ε α) :
    g.outcome =
      if h : g.causes = [] then success g.values.toList else failure ⟨g.causes, h⟩ := by
  obtain ⟨values, error⟩ := g
  cases error with
  | none => rfl
  | some e => simp [outcome, causes, e.causes_ne_nil]

/-- The closed form of the loop over the items. -/
theorem outcome_foldl_add (vs : List (Validation ε α)) :
    (vs.foldl add start).outcome = gather vs := by
  have hcauses : (vs.foldl add start).causes = vs.flatMap Validation.causes :=
    causes_foldl_add start vs
  have hvalues : (vs.foldl add start).values.toList = vs.filterMap value? :=
    values_foldl_add start vs
  simp only [outcome_eq, gather, hcauses, hvalues]

end Gathered

theorem fromList_eq_gather (f : ι → Validation ε α) (items : List ι) :
    fromList f items = gather (items.map f) := by
  rw [← Gathered.outcome_foldl_add, List.foldl_map]
  rfl

@[simp]
theorem causes_fromList (f : ι → Validation ε α) (items : List ι) :
    (fromList f items).causes = items.flatMap fun i => (f i).causes := by
  rw [fromList_eq_gather, causes_gather, List.flatMap_map]

theorem causes_fromList_eq_nil_iff {f : ι → Validation ε α} {items : List ι} :
    (fromList f items).causes = [] ↔ ∀ i ∈ items, (f i).causes = [] := by
  rw [causes_fromList, List.flatMap_eq_nil_iff]

@[simp]
theorem value?_fromList (f : ι → Validation ε α) (items : List ι) :
    (fromList f items).value? = items.mapM fun i => (f i).value? := by
  induction items with
  | nil => rfl
  | cons i items ih =>
    rw [fromList_eq_gather, List.map_cons, value?_gather_cons, ← fromList_eq_gather, ih,
      List.mapM_cons]
    cases (f i).value? with
    | none => rfl
    | some a => cases items.mapM fun i => (f i).value? <;> rfl

end Lists

section Visits

variable {m : Type → Type} [Monad m] [LawfulMonad m]

theorem foldlM_add (check : ι → m (Validation ε α)) (g : Gathered ε α) (items : List ι) :
    items.foldlM (fun g i => return g.add (← check i)) g =
      (fun vs => vs.foldl Gathered.add g) <$> items.mapM check := by
  induction items generalizing g with
  | nil => simp
  | cons i items ih =>
    simp only [List.foldlM_cons, List.mapM_cons, bind_assoc, pure_bind, ih, map_eq_pure_bind,
      List.foldl_cons]

theorem fromListM_eq_gather (check : ι → m (Validation ε α)) (items : List ι) :
    fromListM check items = gather <$> items.mapM check := by
  rw [fromListM, foldlM_add, ← map_eq_pure_bind, ← comp_map]
  have hgather : Gathered.outcome ∘ (fun vs => vs.foldl Gathered.add Gathered.start) =
      (gather : List (Validation ε α) → _) := by
    funext vs
    exact Gathered.outcome_foldl_add vs
  rw [hgather]

theorem forM_flatMap {κ : Type} (visit : κ → m Unit) (reached : ι → List κ) (items : List ι) :
    forM (items.flatMap reached) visit = forM items fun i => forM (reached i) visit := by
  induction items with
  | nil => rfl
  | cons i items ih => simp [List.flatMap_cons, ih]

theorem mapM_visit (visit : ι → m Unit) (f : ι → α) (items : List ι) :
    (items.mapM fun i => do
      visit i
      return f i) = do
        forM items visit
        return items.map f := by
  induction items with
  | nil => simp
  | cons i items ih =>
    rw [List.mapM_cons, ih]
    simp

/-- Every item is checked once, in order, whatever came of the ones before it. -/
theorem fromListM_visit (visit : ι → m Unit) (f : ι → Validation ε α) (items : List ι) :
    (fromListM (fun i => do
      visit i
      return f i) items) = do
        forM items visit
        return fromList f items := by
  rw [fromListM_eq_gather, mapM_visit, map_eq_pure_bind]
  simp [fromList_eq_gather]

end Visits

end Validation
end TypeGraph
