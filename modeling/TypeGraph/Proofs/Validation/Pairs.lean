import TypeGraph.Proofs.Validation.Causes

/-! Checking a list as a chain of pairs. Every outcome is paired with what was gathered before it,
and lists that are checked apart are paired as a whole. -/

namespace TypeGraph.Validation

variable {ε α ι : Type}

def append (v w : Validation ε (List α)) : Validation ε (List α) :=
  (v.zip w).map fun p => p.1 ++ p.2

def push (gathered : Validation ε (List α)) (v : Validation ε α) : Validation ε (List α) :=
  (gathered.zip v).map fun p => p.1 ++ [p.2]

theorem eq_of_causes_of_value? {v w : Validation ε α} (hc : v.causes = w.causes)
    (hv : v.value? = w.value?) : v = w := by
  cases v with
  | success a =>
    cases w with
    | success b => rw [Option.some.inj hv]
    | failure e => cases hv
  | failure d =>
    cases w with
    | success b => cases hv
    | failure e =>
      have he : d = e := Failure.ext hc
      rw [he]

@[simp]
theorem causes_append (v w : Validation ε (List α)) :
    (v.append w).causes = v.causes ++ w.causes := by
  simp [append]

@[simp]
theorem value?_append (v w : Validation ε (List α)) :
    (v.append w).value? = v.value?.bind fun as => w.value?.map fun bs => as ++ bs := by
  simp only [append, value?_map, value?_zip]
  cases v.value? with
  | none => rfl
  | some as => cases w.value? <;> rfl

theorem Gathered.outcome_add (g : Gathered ε α) (v : Validation ε α) :
    (g.add v).outcome = g.outcome.push v := by
  obtain ⟨values, error⟩ := g
  cases v with
  | success a =>
    cases error with
    | none => exact congrArg Validation.success Array.toList_push
    | some e => rfl
  | failure e => cases error <;> rfl

theorem fromList_eq_foldl (f : ι → Validation ε α) (items : List ι) :
    fromList f items = items.foldl (fun gathered i => gathered.push (f i)) (.success []) :=
  (List.foldl_hom Gathered.outcome fun g i => (g.outcome_add (f i)).symm).symm

theorem fromList_append (f : ι → Validation ε α) (xs ys : List ι) :
    fromList f (xs ++ ys) = (fromList f xs).append (fromList f ys) := by
  apply eq_of_causes_of_value?
  · simp
  · simp only [value?_append, value?_fromList, List.mapM_append]
    cases xs.mapM fun i => (f i).value? with
    | none => rfl
    | some as => cases ys.mapM fun i => (f i).value? <;> rfl

section Effects

variable {m : Type → Type} [Monad m] [LawfulMonad m]

theorem foldlM_push (check : ι → m (Validation ε α)) (g : Gathered ε α) (items : List ι) :
    items.foldlM (fun gathered i => return gathered.push (← check i)) g.outcome =
      Gathered.outcome <$> items.foldlM (fun g i => return g.add (← check i)) g := by
  induction items generalizing g with
  | nil => simp
  | cons i items ih =>
    simp only [List.foldlM_cons, bind_assoc, pure_bind, ← Gathered.outcome_add, ih, map_bind]

theorem fromListM_eq_foldlM (check : ι → m (Validation ε α)) (items : List ι) :
    fromListM check items =
      items.foldlM (fun gathered i => return gathered.push (← check i)) (.success []) := by
  have hstart : (.success [] : Validation ε (List α)) = Gathered.start.outcome := rfl
  rw [hstart, foldlM_push, fromListM, map_eq_pure_bind]

end Effects

/-- Checking a list pairs the outcome of every item with what was gathered before it. So a list in
two parts is checked like its parts. The check of every item is run once, in order, whether it
fails or not, and so is everything that it does on the way. -/
theorem fromList_by_pairs (f : ι → Validation ε α) :
    (∀ items, fromList f items =
      items.foldl (fun gathered i => (gathered.zip (f i)).map fun p => p.1 ++ [p.2])
        (.success [])) ∧
    (∀ xs ys, fromList f (xs ++ ys) =
      ((fromList f xs).zip (fromList f ys)).map fun p => p.1 ++ p.2) ∧
    ∀ {m : Type → Type} [Monad m] [LawfulMonad m],
      (∀ (visit : ι → m Unit) items,
        fromListM (fun i => do
          visit i
          return f i) items = do
            forM items visit
            return fromList f items) ∧
      ∀ (check : ι → m (Validation ε α)) items,
        fromListM check items = items.foldlM
          (fun gathered i => return (gathered.zip (← check i)).map fun p => p.1 ++ [p.2])
          (.success []) := by
  refine ⟨fromList_eq_foldl f, fromList_append f, fun {m} _ _ => ⟨?_, ?_⟩⟩
  · exact fun visit items => fromListM_visit visit f items
  · exact fromListM_eq_foldlM

def digit (n : Nat) : Validation String Nat :=
  if n < 10 then .success n
  else .failure ⟨[⟨"long", ["digit", toString n]⟩, ⟨"late", []⟩], List.cons_ne_nil _ _⟩

def note (n : Nat) : StateM (List Nat) Unit := modify (· ++ [n])

theorem fromList_by_pairs_digits :
    (fromList digit [4, 12, 7, 30]).causes =
      [⟨"long", ["digit", "12"]⟩, ⟨"late", []⟩, ⟨"long", ["digit", "30"]⟩, ⟨"late", []⟩] ∧
    fromList digit [4, 12, 7, 30] =
      ((fromList digit [4, 12]).zip (fromList digit [7, 30])).map (fun p => p.1 ++ p.2) ∧
    (fromListM (fun n => do
      note n
      return digit n) [4, 12, 7, 30]).run [] =
        (fromList digit [4, 12, 7, 30], [4, 12, 7, 30]) := by
  obtain ⟨-, happend, heffects⟩ := fromList_by_pairs digit
  refine ⟨by decide, happend [4, 12] [7, 30], ?_⟩
  rw [heffects.1 note [4, 12, 7, 30]]
  rfl

end TypeGraph.Validation
