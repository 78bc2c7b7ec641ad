import TypeGraph.Schema.Standard
import TypeGraph.Proofs.Schema.Spelling

/-! What a reference keeps of the wrappers of a type. The list flag is read off the one or two
outermost wrappers; it tells of a list at any depth because no two non-null wrappers meet. -/

namespace TypeGraph.TypeExpr

variable {s t : TypeExpr} {n : Name}

/-- A type is the whole of another, or stands inside its wrappers. -/
inductive Inside (s : TypeExpr) : TypeExpr → Prop
  | self : Inside s s
  | list {t : TypeExpr} (h : Inside s t) : Inside s (.list t)
  | nonNull {t : TypeExpr} (h : Inside s t) : Inside s (.nonNull t)

theorem inside_list_iff (hne : s ≠ list t) : Inside s (list t) ↔ Inside s t := by
  constructor
  · intro h
    cases h with
    | self => exact absurd rfl hne
    | list h => exact h
  · exact .list

theorem inside_nonNull_iff (hne : s ≠ nonNull t) : Inside s (nonNull t) ↔ Inside s t := by
  constructor
  · intro h
    cases h with
    | self => exact absurd rfl hne
    | nonNull h => exact h
  · exact .nonNull

theorem named_inside_iff : Inside (named n) t ↔ t.name = n := by
  induction t with
  | named m =>
    constructor
    · intro h
      cases h
      rfl
    · rintro rfl
      exact .self
  | list t ih =>
    have hne : named n ≠ list t := fun he => by cases he
    rw [inside_list_iff hne, ih, name]
  | nonNull t ih =>
    have hne : named n ≠ nonNull t := fun he => by cases he
    rw [inside_nonNull_iff hne, ih, name]

theorem inside_nullable_iff (hs : s.isNonNull = false) : Inside s t.nullable ↔ Inside s t := by
  cases t with
  | named m => exact Iff.rfl
  | list t => exact Iff.rfl
  | nonNull t =>
    have hne : s ≠ nonNull t := by
      rintro rfl
      cases hs
    exact (inside_nonNull_iff hne).symm

theorem isList_nullable_iff (hw : t.WellFormed) :
    t.nullable.isList = true ↔ ∃ s, Inside (list s) t := by
  have hlist : ∀ s, Inside (list s) t.nullable ↔ Inside (list s) t := fun s =>
    inside_nullable_iff rfl
  rcases nullable_eq hw with hnull | ⟨s, hnull, -⟩
  · constructor
    · intro h
      rw [hnull] at h
      cases h
    · rintro ⟨s, hs⟩
      have hs' := (hlist s).mpr hs
      rw [hnull] at hs'
      cases hs'
  · have hself : Inside (list s) t.nullable := hnull ▸ .self
    have htrue : t.nullable.isList = true := by rw [hnull, isList]
    exact ⟨fun _ => ⟨s, (hlist s).mp hself⟩, fun _ => htrue⟩

theorem isNonNull_iff : t.isNonNull = true ↔ ∃ s, t = nonNull s := by
  cases t <;> simp [isNonNull]

/-- The reference is to the innermost name, in a list if there is a list anywhere, and required if
the outermost wrapper is non-null. -/
structure Flattens (t : TypeExpr) (r : Reference) : Prop where
  target : ∀ n, Inside (named n) t ↔ r.target = n.text
  list : r.list = true ↔ ∃ s, Inside (.list s) t
  required : r.required = true ↔ ∃ s, t = .nonNull s

theorem flattens_reference (hw : t.WellFormed) :
    t.Flattens t.reference ∧ Reference.parse t.reference.render = .ok t.reference := by
  have htarget : ∀ n, Inside (named n) t ↔ t.name.text = n.text := fun n => by
    rw [named_inside_iff]
    exact ⟨congrArg Name.text, Name.text_inj⟩
  have hread : Reference.parse t.reference.render = .ok t.reference :=
    Reference.parse_render t.name.spelled
  exact ⟨⟨htarget, isList_nullable_iff hw, isNonNull_iff⟩, hread⟩

def grid : TypeExpr := .nonNull (.list (.nonNull (.list Schema.Standard.string)))

theorem flattens_reference_grid :
    grid.WellFormed ∧ grid.Flattens ⟨"String", true, true⟩ ∧
      Reference.parse "[String]!" = .ok ⟨"String", true, true⟩ :=
  have hw : grid.WellFormed := by decide
  ⟨hw, flattens_reference hw⟩

/-- Behind two non-null wrappers a list goes unseen. -/
example : ¬ (nonNull grid).WellFormed ∧ (nonNull grid).reference.list = false := by decide

end TypeGraph.TypeExpr
