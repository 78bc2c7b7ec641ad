import TypeGraph.Proofs.Validation.Causes

/-! Expressions of checks. Which leaves of an expression are reached, and which value it has, is
said without the outcomes of the checks. -/

namespace TypeGraph

variable {ε α : Type}

def Cause.within (segments : List String) (c : Cause ε) : Cause ε :=
  ⟨c.message, segments ++ c.trace⟩

theorem Cause.within_concat (segments : List String) (segment : String) :
    (within (segments ++ [segment]) : Cause ε → Cause ε) = within segments ∘ under segment := by
  funext c
  simp [within, under]

namespace Validation

inductive Expr (ε : Type) : Type → Type 1 where
  | succeed {α : Type} (a : α) : Expr ε α
  | fail {α : Type} (message : ε) : Expr ε α
  | failure {α : Type} (error : Failure ε) : Expr ε α
  | ofOption {α : Type} (value : Option α) (message : ε) : Expr ε α
  | map {α β : Type} (f : α → β) (e : Expr ε α) : Expr ε β
  | andThen {α β : Type} (e : Expr ε α) (next : α → Expr ε β) : Expr ε β
  | zip {α β : Type} (d : Expr ε α) (e : Expr ε β) : Expr ε (α × β)
  | trace {α : Type} (segment : String) (e : Expr ε α) : Expr ε α
  | fromList {ι α : Type} (f : ι → Expr ε α) (items : List ι) : Expr ε (List α)

/-- A leaf that is reached: the segments around it, outermost first, and the causes it has of
its own. -/
structure Leaf (ε : Type) where
  around : List String
  own : List (Cause ε)

namespace Leaf

def Fails (leaf : Leaf ε) : Prop := leaf.own ≠ []

def causes (leaf : Leaf ε) : List (Cause ε) :=
  leaf.own.map (Cause.within leaf.around)

theorem causes_eq_nil_iff {leaf : Leaf ε} : leaf.causes = [] ↔ ¬ leaf.Fails := by
  rw [causes, List.map_eq_nil_iff, Fails, ne_eq, Decidable.not_not]

end Leaf

namespace Expr

def eval : {α : Type} → Expr ε α → Validation ε α
  | _, .succeed a => .success a
  | _, .fail message => .fail message
  | _, .failure error => .failure error
  | _, .ofOption value message => .ofOption value message
  | _, .map f e => e.eval.map f
  | _, .andThen e next => e.eval.andThen fun a => (next a).eval
  | _, .zip d e => d.eval.zip e.eval
  | _, .trace segment e => e.eval.trace segment
  | _, .fromList f items => .fromList (fun i => (f i).eval) items

def evalM {m : Type → Type} [Monad m] (visit : List (Cause ε) → m Unit) :
    {α : Type} → Expr ε α → m (Validation ε α)
  | _, .succeed a => do
    visit []
    return .success a
  | _, .fail message => do
    visit [{ message }]
    return .fail message
  | _, .failure error => do
    visit error.causes
    return .failure error
  | _, .ofOption value message => do
    visit (match value with
      | some _ => []
      | none => [{ message }])
    return .ofOption value message
  | _, .map f e => do return (← e.evalM visit).map f
  | _, .andThen e next => do (← e.evalM visit).andThenM fun a => (next a).evalM visit
  | _, .zip d e => do return (← d.evalM visit).zip (← e.evalM visit)
  | _, .trace segment e => do return (← e.evalM visit).trace segment
  | _, .fromList f items => fromListM (fun i => (f i).evalM visit) items

def value? : {α : Type} → Expr ε α → Option α
  | _, .succeed a => some a
  | _, .fail _ => none
  | _, .failure _ => none
  | _, .ofOption value _ => value
  | _, .map f e => e.value?.map f
  | _, .andThen e next => e.value?.bind fun a => (next a).value?
  | _, .zip d e => d.value?.bind fun a => e.value?.map fun b => (a, b)
  | _, .trace _ e => e.value?
  | _, .fromList f items => items.mapM fun i => (f i).value?

/-- The leaves that are reached, from left to right. A continuation is reached if there is a
value to go on with; both sides of a pair and all items of a list always are. -/
def leaves (around : List String) : {α : Type} → Expr ε α → List (Leaf ε)
  | _, .succeed _ => [⟨around, []⟩]
  | _, .fail message => [⟨around, [⟨message, []⟩]⟩]
  | _, .failure error => [⟨around, error.causes⟩]
  | _, .ofOption (some _) _ => [⟨around, []⟩]
  | _, .ofOption none message => [⟨around, [⟨message, []⟩]⟩]
  | _, .map _ e => e.leaves around
  | _, .andThen e next => e.leaves around ++
    match e.value? with
    | some a => (next a).leaves around
    | none => []
  | _, .zip d e => d.leaves around ++ e.leaves around
  | _, .trace segment e => e.leaves (around ++ [segment])
  | _, .fromList f items => items.flatMap fun i => (f i).leaves around

theorem value?_eval (e : Expr ε α) : e.eval.value? = e.value? := by
  induction e with
  | succeed a => rfl
  | fail message => rfl
  | failure error => rfl
  | ofOption value message => cases value <;> rfl
  | map f e ih => simp [eval, value?, ih]
  | andThen e next ih ihnext => simp [eval, value?, ih, ihnext]
  | zip d e ihd ihe => simp [eval, value?, ihd, ihe]
  | trace segment e ih => simp [eval, value?, ih]
  | fromList f items ih => simp [eval, value?, ih]

theorem causes_leaves (e : Expr ε α) (around : List String) :
    (e.leaves around).flatMap Leaf.causes = e.eval.causes.map (Cause.within around) := by
  induction e generalizing around with
  | succeed a => rfl
  | fail message => rfl
  | failure error => simp [leaves, eval, causes, Leaf.causes]
  | ofOption value message => cases value <;> rfl
  | map f e ih => simp [leaves, eval, ih]
  | andThen e next ih ihnext =>
    rw [leaves, eval, List.flatMap_append, ih, ← value?_eval]
    cases e.eval with
    | success a => exact ihnext a around
    | failure error => exact List.append_nil _
  | zip d e ihd ihe => simp [leaves, eval, ihd, ihe]
  | trace segment e ih => simp [leaves, eval, ih, Cause.within_concat]
  | fromList f items ih =>
    simp [leaves, eval, List.flatMap_assoc, ih, List.map_flatMap]

theorem evalM_eq {m : Type → Type} [Monad m] [LawfulMonad m] (visit : List (Cause ε) → m Unit)
    (e : Expr ε α) (around : List String) :
    e.evalM visit = do
      forM (e.leaves around) fun leaf => visit leaf.own
      return e.eval := by
  induction e generalizing around with
  | succeed a => simp [evalM, leaves, eval]
  | fail message => simp [evalM, leaves, eval]
  | failure error => simp [evalM, leaves, eval]
  | ofOption value message => cases value <;> simp [evalM, leaves, eval]
  | map f e ih => simp [evalM, leaves, eval, ih around]
  | andThen e next ih ihnext =>
    rw [evalM, leaves, eval, ih around, ← value?_eval]
    cases e.eval with
    | success a => simp [Validation.andThen, andThenM, Validation.value?, ihnext a around]
    | failure error => simp [Validation.andThen, andThenM, Validation.value?]
  | zip d e ihd ihe => simp [evalM, leaves, eval, ihd around, ihe around]
  | trace segment e ih => simp [evalM, leaves, eval, ih (around ++ [segment])]
  | fromList f items ih =>
    simp only [evalM, leaves, eval, fun i => ih i around]
    rw [fromListM_visit, forM_flatMap]

/-- An expression succeeds if and only if no leaf that is reached fails. A failure has the causes
of all leaves that are reached, from left to right, each behind the segments around its leaf.
Evaluation comes to these leaves in this order and to no others. -/
theorem eval_of_leaves (e : Expr ε α) :
    (∀ {m : Type → Type} [Monad m] [LawfulMonad m] (visit : List (Cause ε) → m Unit),
      e.evalM visit = do
        forM (e.leaves []) fun leaf => visit leaf.own
        return e.eval) ∧
    (e.eval.isSuccess = true ↔ ∀ leaf ∈ e.leaves [], ¬ leaf.Fails) ∧
    e.eval.value? = e.value? ∧
    ∀ error, e.eval = .failure error →
      error.causes ≠ [] ∧ error.causes = (e.leaves []).flatMap Leaf.causes := by
  have hcauses : (e.leaves []).flatMap Leaf.causes = e.eval.causes :=
    (causes_leaves e []).trans (List.map_id e.eval.causes)
  refine ⟨fun visit => evalM_eq visit e [], ?_, value?_eval e, fun error h => ?_⟩
  · rw [isSuccess_iff, ← hcauses, List.flatMap_eq_nil_iff]
    exact forall₂_congr fun _ _ => Leaf.causes_eq_nil_iff
  · rw [hcauses, h]
    exact ⟨error.causes_ne_nil, rfl⟩

def halves (items : List Nat) : Expr String (List Nat × Nat) :=
  .trace "all" (.zip
    (.fromList (fun n => .trace "item" (.andThen
      (.ofOption (if n % 2 = 0 then some (n / 2) else none) "odd") fun k =>
        .map (k - ·) (if k = 0 then .fail "zero" else .succeed 1))) items)
    (.failure ⟨[⟨"late", ["inner"]⟩], by decide⟩))

def halvesError : Failure String :=
  ⟨[⟨"odd", ["all", "item"]⟩, ⟨"zero", ["all", "item"]⟩, ⟨"late", ["all", "inner"]⟩], by decide⟩

def writeDown (causes : List (Cause String)) : StateM (List (List (Cause String))) Unit :=
  modify (· ++ [causes])

theorem eval_of_leaves_halves :
    (halves [4, 3, 0]).eval = .failure halvesError ∧
    halvesError.causes = ((halves [4, 3, 0]).leaves []).flatMap Leaf.causes ∧
    (halves [4, 3, 0]).evalM writeDown = (do
      forM ((halves [4, 3, 0]).leaves []) fun leaf => writeDown leaf.own
      return .failure halvesError) := by
  have heval : (halves [4, 3, 0]).eval = .failure halvesError := by decide
  obtain ⟨hvisits, -, -, herror⟩ := eval_of_leaves (halves [4, 3, 0])
  exact ⟨heval, (herror _ heval).2, heval ▸ hvisits writeDown⟩

end Expr
end Validation
end TypeGraph
