import TypeGraph.Proofs.Validation.Expr

/-! The text of a failure, whichever way its causes were put together. -/

namespace TypeGraph

variable {ε α ι : Type}

namespace Text

theorem intercalate_flatMap (sep : String) (texts : ι → List String) (items : List ι)
    (h : ∀ i ∈ items, texts i ≠ []) :
    sep.intercalate (items.flatMap texts) =
      sep.intercalate (items.map fun i => sep.intercalate (texts i)) := by
  induction items with
  | nil => rfl
  | cons i items ih =>
    rw [List.forall_mem_cons] at h
    have htail := ih h.2
    by_cases hi : items = []
    · subst hi
      simp
    · have hmap : (items.map fun i => sep.intercalate (texts i)) ≠ [] := by simpa using hi
      have hflat : items.flatMap texts ≠ [] := by
        obtain ⟨j, hj⟩ := List.exists_mem_of_ne_nil items hi
        intro hnil
        exact h.2 j hj (List.flatMap_eq_nil_iff.mp hnil j hj)
      rw [List.flatMap_cons, String.intercalate_append_of_ne_nil h.1 hflat, htail, List.map_cons,
        String.intercalate_cons_of_ne_nil hmap]

end Text

def Validation.failure? : Validation ε α → Option (Failure ε)
  | success _ => none
  | failure e => some e

theorem Validation.causes_eq_flatMap_failure? (results : List (Validation ε α)) :
    results.flatMap causes = (results.filterMap failure?).flatMap Failure.causes := by
  induction results with
  | nil => rfl
  | cons v results ih =>
    rw [List.flatMap_cons, ih]
    cases v with
    | success a => rfl
    | failure e => rfl

namespace Failure

def line (segments : List String) (message : String) : String :=
  if segments = [] then message else "[" ++ ", ".intercalate segments ++ "] " ++ message

theorem line_eq_self_iff {segments : List String} {message : String} :
    line segments message = message ↔ segments = [] := by
  unfold line
  split
  · next h => simp [h]
  · next h =>
    simp only [h, iff_false]
    intro he
    have hlength := congrArg String.length he
    simp only [String.length_append] at hlength
    have hbracket : "[".length = 1 := rfl
    omega

theorem text_eq_line (describe : ε → String) (c : Cause ε) :
    c.text describe = line c.trace (describe c.message) := by
  obtain ⟨message, trace⟩ := c
  cases trace <;> simp [Cause.text, line]

inductive Expr (ε : Type) where
  | single (message : ε)
  | ofCauses (first : Cause ε) (rest : List (Cause ε))
  | combine (a b : Expr ε)
  | trace (segment : String) (e : Expr ε)

namespace Expr

def eval : Expr ε → Failure ε
  | single message => Failure.single message
  | ofCauses first rest => ⟨first :: rest, List.cons_ne_nil first rest⟩
  | combine a b => a.eval.combine b.eval
  | trace segment e => e.eval.trace segment

/-- The lines of an expression inside some segments, read off its parts from left to right. -/
def lines (describe : ε → String) (around : List String) : Expr ε → List String
  | single message => [line around (describe message)]
  | ofCauses first rest =>
    (first :: rest).map fun c => line (around ++ c.trace) (describe c.message)
  | combine a b => a.lines describe around ++ b.lines describe around
  | trace segment e => e.lines describe (around ++ [segment])

theorem lines_eq_map_causes (describe : ε → String) (e : Expr ε) (around : List String) :
    e.lines describe around =
      e.eval.causes.map fun c => (c.within around).text describe := by
  induction e generalizing around with
  | single message => simp [lines, eval, Failure.single, text_eq_line, Cause.within]
  | ofCauses first rest => simp [lines, eval, text_eq_line, Cause.within]
  | combine a b iha ihb =>
    rw [lines, iha, ihb, eval, Failure.combine, List.map_append]
  | trace segment e ih =>
    rw [lines, ih, eval, Failure.trace, List.map_map, Cause.within_concat]
    rfl

theorem text_eval (describe : ε → String) (e : Expr ε) :
    e.eval.text describe = "\n".intercalate (e.lines describe []) := by
  rw [lines_eq_map_causes]
  rfl

end Expr

theorem text_eq (describe : ε → String) (e : Failure ε) :
    e.text describe =
      "\n".intercalate (e.causes.map fun c => line c.trace (describe c.message)) := by
  unfold text
  have hline : Cause.text describe = fun c : Cause ε => line c.trace (describe c.message) := by
    funext c
    exact text_eq_line describe c
  rw [hline]

theorem text_combine (describe : ε → String) (a b : Failure ε) :
    (a.combine b).text describe = a.text describe ++ "\n" ++ b.text describe := by
  have ha : a.causes.map (Cause.text describe) ≠ [] := mt List.map_eq_nil_iff.mp a.causes_ne_nil
  have hb : b.causes.map (Cause.text describe) ≠ [] := mt List.map_eq_nil_iff.mp b.causes_ne_nil
  unfold text combine
  rw [List.map_append, String.intercalate_append_of_ne_nil ha hb]

theorem combine_assoc (a b c : Failure ε) :
    (a.combine b).combine c = a.combine (b.combine c) :=
  Failure.ext (List.append_assoc a.causes b.causes c.causes)

theorem trace_combine (segment : String) (a b : Failure ε) :
    (a.combine b).trace segment = (a.trace segment).combine (b.trace segment) :=
  Failure.ext List.map_append

theorem text_fromList (describe : ε → String) (f : ι → Validation ε α) (items : List ι)
    {e : Failure ε} (h : Validation.fromList f items = .failure e) :
    e.text describe =
      "\n".intercalate ((items.filterMap fun i => (f i).failure?).map (text describe)) := by
  have hcauses : e.causes = (items.filterMap fun i => (f i).failure?).flatMap causes := by
    have hall := Validation.causes_fromList f items
    rw [h, ← List.flatMap_map, Validation.causes_eq_flatMap_failure?, List.filterMap_map] at hall
    exact hall
  unfold text
  rw [hcauses, List.map_flatMap]
  apply Text.intercalate_flatMap
  intro d _
  exact mt List.map_eq_nil_iff.mp d.causes_ne_nil

theorem exists_fromList_eq_failure (f : ι → Validation ε α) {items : List ι}
    (h : ∃ i ∈ items, (f i).isSuccess = false) : ∃ e, Validation.fromList f items = .failure e := by
  obtain ⟨i, hi, hf⟩ := h
  rw [← Validation.isSuccess_eq_false_iff, ← Bool.not_eq_true, Validation.isSuccess_iff,
    Validation.causes_fromList_eq_nil_iff]
  intro hall
  rw [Validation.isSuccess_iff.mpr (hall i hi)] at hf
  cases hf

/-- However a failure was put together, its text has a line for each of its causes, from left to
right: the message, behind its segments in brackets unless it has none. So the text of a
combination is made of the texts of its two sides, and the text of a checked list of the texts of
its failures. -/
theorem text_by_lines (describe : ε → String) :
    (∀ e : Expr ε,
      e.eval.text describe = "\n".intercalate (e.lines describe []) ∧
      e.eval.text describe =
        "\n".intercalate (e.eval.causes.map fun c => line c.trace (describe c.message))) ∧
    (∀ segments message, line segments message = message ↔ segments = []) ∧
    (∀ a b : Failure ε,
      (a.combine b).text describe = a.text describe ++ "\n" ++ b.text describe) ∧
    (∀ a b c : Failure ε, (a.combine b).combine c = a.combine (b.combine c)) ∧
    (∀ segment, ∀ a b : Failure ε,
      (a.combine b).trace segment = (a.trace segment).combine (b.trace segment)) ∧
    ∀ {ι α : Type} (f : ι → Validation ε α) items, (∃ i ∈ items, (f i).isSuccess = false) →
      ∃ e, (Validation.fromList f items).toExcept = .error e ∧
        e.text describe =
          "\n".intercalate ((items.filterMap fun i => (f i).failure?).map (text describe)) := by
  refine ⟨fun e => ⟨e.text_eval describe, e.eval.text_eq describe⟩, fun _ _ => line_eq_self_iff,
    text_combine describe, combine_assoc, trace_combine, ?_⟩
  intro ι α f items h
  obtain ⟨e, he⟩ := exists_fromList_eq_failure f h
  refine ⟨e, ?_, text_fromList describe f items he⟩
  rw [he]
  rfl

def notes : Expr String :=
  .combine (.trace "" (.single "[a] b"))
    (.trace "x" (.ofCauses ⟨"one\ntwo", []⟩ [⟨"", ["y", ""]⟩]))

def refuse (n : Nat) : Validation String Nat :=
  if n % 2 = 1 then .success n
  else .failure ⟨[⟨"even", [toString n]⟩, ⟨"late", []⟩], List.cons_ne_nil _ _⟩

theorem text_by_lines_notes :
    notes.eval.text id = "[] [a] b\n[x] one\ntwo\n[x, y, ] " ∧
    (∃ i ∈ [3, 4, 5, 0], (refuse i).isSuccess = false) ∧
    ∃ e, (Validation.fromList refuse [3, 4, 5, 0]).toExcept = .error e ∧
      e.text id = "[4] even\nlate\n[0] even\nlate" := by
  obtain ⟨hlines, -, -, -, -, hlist⟩ := text_by_lines (id : String → String)
  have hfails : ∃ i ∈ [3, 4, 5, 0], (refuse i).isSuccess = false := by decide
  obtain ⟨e, he, htext⟩ := hlist refuse [3, 4, 5, 0] hfails
  exact ⟨(hlines notes).1.trans (by decide), hfails, e, he, htext.trans (by decide)⟩

end Failure
end TypeGraph
