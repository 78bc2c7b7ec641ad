/-! Outcomes of checks: a value, or every cause for which there is none.

A check of several items goes on after a failure, so all causes are reported together and in
the order of the items. -/

namespace TypeGraph

/-- Why a check failed. The segments of the trace lead to the failing item, outermost first. -/
structure Cause (ε : Type) where
  message : ε
  trace : List String := []
  deriving DecidableEq

/-- A failure has at least one cause, and its causes never change. So its text is a function of
them, `Failure.text`: written when the failure is made or when it is read, it is the same. -/
@[ext]
structure Failure (ε : Type) where
  causes : List (Cause ε)
  causes_ne_nil : causes ≠ []
  deriving DecidableEq

variable {ε α β γ ι : Type} {m : Type → Type}

namespace Cause

def under (segment : String) (c : Cause ε) : Cause ε := { c with trace := segment :: c.trace }

def text (describe : ε → String) (c : Cause ε) : String :=
  match c.trace with
  | [] => describe c.message
  | trace => "[" ++ ", ".intercalate trace ++ "] " ++ describe c.message

end Cause

namespace Failure

def single (message : ε) : Failure ε := ⟨[{ message }], List.cons_ne_nil _ _⟩

def ofCauses? (causes : List (Cause ε)) : Option (Failure ε) :=
  if h : causes = [] then none else some ⟨causes, h⟩

def combine (a b : Failure ε) : Failure ε :=
  ⟨a.causes ++ b.causes, List.append_ne_nil_of_left_ne_nil a.causes_ne_nil _⟩

def trace (segment : String) (f : Failure ε) : Failure ε :=
  ⟨f.causes.map (Cause.under segment), mt List.map_eq_nil_iff.mp f.causes_ne_nil⟩

def messages (f : Failure ε) : List ε := f.causes.map Cause.message

def text (describe : ε → String) (f : Failure ε) : String :=
  "\n".intercalate (f.causes.map (Cause.text describe))

end Failure

inductive Validation (ε α : Type) where
  | success (value : α)
  | failure (error : Failure ε)
  deriving DecidableEq

namespace Validation

def fail (message : ε) : Validation ε α := .failure (Failure.single message)

def ofOption (value : Option α) (message : ε) : Validation ε α :=
  match value with
  | some a => success a
  | none => fail message

def isSuccess : Validation ε α → Bool
  | success _ => true
  | failure _ => false

def value? : Validation ε α → Option α
  | success a => some a
  | failure _ => none

def causes : Validation ε α → List (Cause ε)
  | success _ => []
  | failure e => e.causes

def toExcept : Validation ε α → Except (Failure ε) α
  | success a => .ok a
  | failure e => .error e

def mapM [Monad m] (f : α → m β) : Validation ε α → m (Validation ε β)
  | success a => success <$> f a
  | failure e => pure (failure e)

def map (f : α → β) : Validation ε α → Validation ε β
  | success a => success (f a)
  | failure e => failure e

def andThenM [Monad m] (f : α → m (Validation ε β)) : Validation ε α → m (Validation ε β)
  | success a => f a
  | failure e => pure (failure e)

def andThen (f : α → Validation ε β) : Validation ε α → Validation ε β
  | success a => f a
  | failure e => failure e

def zip : Validation ε α → Validation ε β → Validation ε (α × β)
  | success a, success b => success (a, b)
  | success _, failure e => failure e
  | failure e, success _ => failure e
  | failure e, failure e' => failure (e.combine e')

def trace (segment : String) : Validation ε α → Validation ε α
  | success a => success a
  | failure e => failure (e.trace segment)

structure Gathered (ε α : Type) where
  values : Array α
  error : Option (Failure ε)

namespace Gathered

def start : Gathered ε α := ⟨#[], none⟩

def add (g : Gathered ε α) : Validation ε α → Gathered ε α
  | success a => { g with values := g.values.push a }
  | failure e =>
    match g.error with
    | some earlier => { g with error := some (earlier.combine e) }
    | none => { g with error := some e }

/-- The values are dropped if anything failed. -/
def outcome (g : Gathered ε α) : Validation ε (List α) :=
  match g.error with
  | some e => failure e
  | none => success g.values.toList

end Gathered

/-- Checks every item, whatever came of the ones before it. -/
def fromListM [Monad m] (f : ι → m (Validation ε α)) (items : List ι) :
    m (Validation ε (List α)) := do
  let gathered ← items.foldlM (fun g i => return g.add (← f i)) Gathered.start
  return gathered.outcome

def fromList (f : ι → Validation ε α) (items : List ι) : Validation ε (List α) :=
  (items.foldl (fun g i => g.add (f i)) Gathered.start).outcome

theorem isSuccess_iff {v : Validation ε α} : v.isSuccess = true ↔ v.causes = [] := by
  cases v with
  | success a => simp [isSuccess, causes]
  | failure e => simpa [isSuccess, causes] using e.causes_ne_nil

@[simp]
theorem causes_map (f : α → β) (v : Validation ε α) : (v.map f).causes = v.causes := by
  cases v <;> rfl

@[simp]
theorem causes_zip (v : Validation ε α) (w : Validation ε β) :
    (v.zip w).causes = v.causes ++ w.causes := by
  cases v <;> cases w <;> simp [zip, causes, Failure.combine]

@[simp]
theorem causes_trace (segment : String) (v : Validation ε α) :
    (v.trace segment).causes = v.causes.map (Cause.under segment) := by
  cases v <;> rfl

theorem mapM_id (f : α → β) (v : Validation ε α) :
    Id.run (v.mapM fun a => pure (f a)) = v.map f := by
  cases v <;> rfl

theorem andThenM_id (f : α → Validation ε β) (v : Validation ε α) :
    Id.run (v.andThenM fun a => pure (f a)) = v.andThen f := by
  cases v <;> rfl

theorem fromListM_id (f : ι → Validation ε α) (items : List ι) :
    Id.run (fromListM (fun i => pure (f i)) items) = fromList f items := by
  simp [fromListM, fromList]

end Validation
end TypeGraph
