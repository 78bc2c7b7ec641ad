import TypeGraph.Proofs.Place
import TypeGraph.Proofs.Renaming.Runs
import TypeGraph.Proofs.Renaming.Types

/-! References after a renaming. A reference to a type refers to a type afterwards, so a run of
renamings leaves no dangling reference that was not dangling at its start. -/

namespace TypeGraph.Renaming

variable {r : Renaming} {c : Config} {name old : String}

theorem reference?_rename (h : r.Applies c) (hm : name ∈ (r.rename c).config.types)
    (field : String) (arg : Option String) :
    (r.rename c).config.reference? ⟨name, field, arg⟩ =
      (c.reference? ⟨bearer r.entries name, field, arg⟩).map (Reference.mapTarget r.resolve) := by
  obtain ⟨fields, hf, hf'⟩ := type?_rename_of_mem h hm
  unfold Config.reference? Config.field?
  rw [hf, hf', Option.bind_some, Option.bind_some, Fields.get?_mapTargets]
  cases fields.get? field <;> simp

theorem exists_of_reference?_rename (h : r.Applies c) {p : Place} {reference : Reference}
    (hp : (r.rename c).config.reference? p = some reference) :
    ∃ before, c.reference? ⟨bearer r.entries p.type, p.field, p.arg⟩ = some before ∧
      r.resolve before.target = reference.target := by
  rw [reference?_rename h (Config.mem_of_reference? hp)] at hp
  obtain ⟨before, hb, rfl⟩ := Option.map_eq_some_iff.mp hp
  exact ⟨before, hb, rfl⟩

theorem dangling_of_dangling_rename (h : r.Applies c)
    (hd : (r.rename c).config.Dangling name) : c.Dangling name := by
  obtain ⟨⟨p, reference, hp, rfl⟩, hm⟩ := hd
  obtain ⟨before, hb, ht⟩ := exists_of_reference?_rename h hp
  -- A target that was a type is resolved to a type, and one that was none is not renamed.
  have hbefore : before.target ∉ c.types := fun hc => hm (ht ▸ resolve_mem_rename h hc)
  rw [resolve_of_notMem fun hr => hbefore (h _ hr)] at ht
  exact ht ▸ ⟨⟨_, before, hb, rfl⟩, hbefore⟩

theorem kept_dangling (c : Config) : Kept fun d => ∀ name, d.Dangling name → c.Dangling name := by
  intro r d out ha hc name hd
  obtain ⟨h, rfl⟩ := apply_eq_success_iff.mp ha
  exact hc name (dangling_of_dangling_rename h hd)

/-- Every run whose steps read earlier configurations goes through, and what dangles in one of
its configurations dangled in the first. In a single renaming every reference to a type that
reaches the result refers to a type there. -/
theorem dangling_of_run (c : Config) (steps : List Step)
    (h : ∀ i (hi : i < steps.length), steps[i].source ≤ i) :
    (∃ run, (Run.start c).steps? steps = some run ∧ run.configs.length = steps.length + 1 ∧
      ∀ d ∈ run.configs, ∀ name, d.Dangling name → c.Dangling name) ∧
    ∀ (r : Renaming) (d : Config) (out : Renamed), r.apply d = .success out →
      ∀ old, ∀ name ∈ out.config.types, r.EndsUnder old name →
        ∀ field arg before, d.reference? ⟨old, field, arg⟩ = some before →
          before.target ∈ d.types →
          ∃ after, out.config.reference? ⟨name, field, arg⟩ = some after ∧
            after.target ∈ out.config.types := by
  constructor
  · have hs : ∀ i (hi : i < steps.length), steps[i].source < (Run.start c).configs.length + i :=
      fun i hi => by
        have hle := h i hi
        rw [Run.start, List.length_singleton]
        omega
    obtain ⟨run, hrun, hlen, hall⟩ := Run.exists_steps? (kept_dangling c) (Run.start c) steps hs
      fun d hd name hn => List.mem_singleton.mp hd ▸ hn
    exact ⟨run, hrun, by rw [hlen, Run.start, List.length_singleton, Nat.add_comm], hall⟩
  · intro r d out ha old name hm hends field arg before hb hbefore
    obtain ⟨happ, rfl⟩ := apply_eq_success_iff.mp ha
    refine ⟨before.mapTarget r.resolve, ?_, resolve_mem_rename happ hbefore⟩
    rw [reference?_rename happ hm, ← hends.eq_bearer, hb]
    rfl

def ringSteps : List Step :=
  [⟨0, ofPairs chain⟩, ⟨1, ofPairs [("A", "E")]⟩, ⟨2, ofPairs [("D", "A")]⟩]

theorem dangling_of_run_ring :
    (∀ i (hi : i < ringSteps.length), ringSteps[i].source ≤ i) ∧
    (∃ run, (Run.start ring).steps? ringSteps = some run ∧
      run.configs.length = ringSteps.length + 1 ∧
      ∀ d ∈ run.configs, ∀ name, d.Dangling name → ring.Dangling name) ∧
    ∃ after, ((ofPairs chain).rename ring).config.reference? ⟨"D", "a", some "of"⟩ = some after ∧
      after.target ∈ ((ofPairs chain).rename ring).config.types :=
  ⟨by decide, (dangling_of_run ring ringSteps (by decide)).1,
    (dangling_of_run ring ringSteps (by decide)).2 (ofPairs chain) ring _ rfl "C" "D" (by decide)
      rfl "a" (some "of") ⟨"B", true, true⟩ (by decide) (by decide)⟩

end TypeGraph.Renaming
