import TypeGraph.Renaming.Run

/-! What a run of renamings keeps: a property of the first configuration that every renaming
keeps holds of all configurations of the run. -/

namespace TypeGraph

def Kept (P : Config → Prop) : Prop :=
  ∀ {r : Renaming} {c : Config} {out : Renamed}, r.apply c = .success out → P c → P out.config

variable {P : Config → Prop}

theorem Step.take_keeps (hP : Kept P) (s : Step) {c : Config} (hc : P c) : P (s.take c).2 := by
  unfold take
  cases ha : s.change.apply c with
  | success renamed => exact hP ha hc
  | failure e => exact hc

namespace Run

theorem exists_step? (run : Run) (s : Step) (h : s.source < run.configs.length) :
    ∃ c ∈ run.configs, run.step? s =
      some ⟨run.configs ++ [(s.take c).2], run.results ++ [(s.take c).1]⟩ :=
  ⟨run.configs[s.source], List.getElem_mem h, by rw [step?, List.getElem?_eq_getElem h]; rfl⟩

theorem exists_steps? (hP : Kept P) (run : Run) (steps : List Step)
    (hs : ∀ i (hi : i < steps.length), steps[i].source < run.configs.length + i)
    (hrun : ∀ c ∈ run.configs, P c) :
    ∃ final, run.steps? steps = some final ∧
      final.configs.length = run.configs.length + steps.length ∧ ∀ c ∈ final.configs, P c := by
  induction steps generalizing run with
  | nil => exact ⟨run, rfl, rfl, hrun⟩
  | cons s steps ih =>
    obtain ⟨c, hc, hstep⟩ := exists_step? run s (hs 0 (Nat.zero_lt_succ _))
    have hlen : (run.configs ++ [(s.take c).2]).length = run.configs.length + 1 :=
      List.length_append
    obtain ⟨final, hfinal, hlast, hall⟩ :=
      ih ⟨run.configs ++ [(s.take c).2], run.results ++ [(s.take c).1]⟩ (fun i hi => by
        have h := hs (i + 1) (Nat.succ_lt_succ hi)
        rw [List.getElem_cons_succ] at h
        rw [hlen]
        omega) (fun d hd => by
        rcases List.mem_append.mp hd with hd | hd
        · exact hrun d hd
        · rw [List.mem_singleton] at hd
          exact hd ▸ s.take_keeps hP (hrun c hc))
    refine ⟨final, ?_, ?_, hall⟩
    · rw [steps?, List.foldlM_cons, hstep]
      exact hfinal
    · rw [hlast, hlen, List.length_cons]
      omega

end Run
end TypeGraph
