import TypeGraph.Schema
import TypeGraph.Proofs.Reference.Marks

/-! How the types of a schema are spelled, and which spellings can be read as references: those
with at most one list. -/

namespace TypeGraph.TypeExpr

variable {t : TypeExpr}

def render : TypeExpr → String
  | named n => n.text
  | list t => "[" ++ t.render ++ "]"
  | nonNull t => t.render ++ "!"

def listDepth : TypeExpr → Nat
  | named _ => 0
  | list t => t.listDepth + 1
  | nonNull t => t.listDepth

def decideWellFormed : (t : TypeExpr) → Decidable t.WellFormed
  | named _ => inferInstanceAs (Decidable True)
  | list t => t.decideWellFormed
  | nonNull t =>
    have := t.decideWellFormed
    inferInstanceAs (Decidable (t.isNonNull = false ∧ t.WellFormed))

instance : DecidablePred WellFormed := decideWellFormed

theorem toList_render (t : TypeExpr) :
    t.render.toList = t.nullable.render.toList ++ Reference.mark t.isNonNull := by
  cases t <;> simp [render, nullable, isNonNull, Reference.mark]

@[simp]
theorem name_nullable (t : TypeExpr) : t.nullable.name = t.name := by
  cases t <;> rfl

@[simp]
theorem listDepth_nullable (t : TypeExpr) : t.nullable.listDepth = t.listDepth := by
  cases t <;> rfl

section Flat

theorem nullable_eq (hw : t.WellFormed) :
    t.nullable = named t.name ∨ ∃ s, t.nullable = list s ∧ s.WellFormed := by
  cases t with
  | named n => exact .inl rfl
  | list s => exact .inr ⟨s, rfl, hw⟩
  | nonNull t =>
    -- What may not be null stands around a name or a list, never around another such type.
    obtain ⟨hnull, hw⟩ := hw
    cases t with
    | named n => exact .inl rfl
    | list s => exact .inr ⟨s, rfl, hw⟩
    | nonNull s => simp [isNonNull] at hnull

theorem nullable_eq_named (hw : t.WellFormed) (hd : t.listDepth = 0) :
    t.nullable = named t.name := by
  rcases nullable_eq hw with h | ⟨s, h, -⟩
  · exact h
  · rw [← listDepth_nullable, h, listDepth] at hd
    omega

theorem toList_render_of_named (h : t.nullable = named t.name) :
    t.render.toList = Reference.opening false ++
      (t.name.text.toList ++ (Reference.Marks.of false false t.isNonNull).chars) := by
  rw [toList_render, h, render]
  simp [Reference.opening, Reference.Marks.chars]

theorem toList_render_of_list {s : TypeExpr} (h : t.nullable = list s)
    (hs : s.nullable = named s.name) :
    t.render.toList = Reference.opening true ++
      (t.name.text.toList ++ (Reference.Marks.of true s.isNonNull t.isNonNull).chars) := by
  have hname : t.name = s.name := by rw [← name_nullable t, h, name]
  rw [toList_render, h, render, hname]
  simp [toList_render_of_named hs, Reference.opening, Reference.Marks.chars]

theorem parse?_render_of_flat (hw : t.WellFormed) (hd : t.listDepth ≤ 1) :
    Reference.parse? t.render = some t.reference := by
  have hname : String.ofList t.name.text.toList = t.name.text := String.ofList_toList
  rcases nullable_eq hw with h | ⟨s, h, hs⟩
  · have href : t.reference = ⟨t.name.text, false, t.isNonNull⟩ := by rw [reference, h]; rfl
    rw [Reference.parse?_of_toList t.render t.name.spelled (toList_render_of_named h), hname, href]
  · have hdepth : s.listDepth = 0 := by
      rw [← listDepth_nullable, h, listDepth] at hd
      omega
    have href : t.reference = ⟨t.name.text, true, t.isNonNull⟩ := by rw [reference, h]; rfl
    have hspell := toList_render_of_list h (nullable_eq_named hs hdepth)
    rw [Reference.parse?_of_toList t.render t.name.spelled hspell, hname, href]

end Flat

section Nested

theorem not_isBlank_of_mem_render : ∀ c ∈ t.render.toList, Text.isBlank c = false := by
  induction t with
  | named n => exact fun c hc => isBlank_of_isNameChar (n.spelled.isNameChar c hc)
  | list t ih => simpa [render, or_imp, forall_and] using ⟨by decide, ih, by decide⟩
  | nonNull t ih => simpa [render, or_imp, forall_and] using ⟨ih, by decide⟩

theorem exists_toList_render (hd : 0 < t.listDepth) :
    ∃ rest, t.render.toList = '[' :: rest := by
  induction t with
  | named n => simp [listDepth] at hd
  | list t _ => exact ⟨t.render.toList ++ [']'], by simp [render]⟩
  | nonNull t ih =>
    obtain ⟨rest, hrest⟩ := ih hd
    exact ⟨rest ++ ['!'], by simp [render, hrest]⟩

theorem exists_toList_render_of_nested (hd : 1 < t.listDepth) :
    ∃ rest, t.render.toList = '[' :: '[' :: rest := by
  induction t with
  | named n => simp [listDepth] at hd
  | list t _ =>
    obtain ⟨rest, hrest⟩ := exists_toList_render (Nat.lt_of_succ_lt_succ hd)
    exact ⟨rest ++ [']'], by simp [render, hrest]⟩
  | nonNull t ih =>
    obtain ⟨rest, hrest⟩ := ih hd
    exact ⟨rest ++ ['!'], by simp [render, hrest]⟩

theorem parse?_render_of_nested (hd : 1 < t.listDepth) : Reference.parse? t.render = none := by
  obtain ⟨rest, hrest⟩ := exists_toList_render_of_nested hd
  rw [Reference.parse?, Text.trim_eq_self not_isBlank_of_mem_render, hrest, Reference.read?,
    Reference.readBody?_cons_eq_none (by decide) (by decide)]

end Nested

end TypeGraph.TypeExpr
