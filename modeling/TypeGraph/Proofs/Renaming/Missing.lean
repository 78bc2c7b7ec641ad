import TypeGraph.Proofs.RecordOrder
import TypeGraph.Proofs.Renaming.Types

/-! Renamings that fail. Every old name that the configuration lacks is reported once, in the
order of the renaming, and nothing else is. -/

namespace TypeGraph.Renaming

variable {r : Renaming} {c : Config} {e : Failure MissingType} {name : String}
  {olds : List String} {before : String → String → Prop} {pairs : List (String × String)}

theorem causes_apply (r : Renaming) (c : Config) :
    (r.apply c).causes =
      (r.keys.filter fun name => name ∉ c.types).map fun name => ⟨⟨name⟩, []⟩ := by
  rw [apply, Validation.causes_map, check, Validation.causes_fromList]
  induction r.keys with
  | nil => rfl
  | cons name names ih =>
    rw [List.flatMap_cons, ih]
    by_cases hm : name ∈ c.types <;>
      simp [hm, Validation.causes, Validation.fail, Failure.single]

/-- A failure reports the names among `olds` that are no types, one cause for each, in an order
of the names. -/
structure Reports (olds : List String) (before : String → String → Prop) (c : Config)
    (e : Failure MissingType) : Prop where
  mem_iff : ∀ name, name ∈ e.messages.map MissingType.name ↔ name ∈ olds ∧ name ∉ c.types
  once : (e.messages.map MissingType.name).Nodup
  order : (e.messages.map MissingType.name).Pairwise before
  untraced : ∀ cause ∈ e.causes, cause.trace = []
  message : ∀ cause ∈ e.causes, cause.message.message =
    "Type '" ++ cause.message.name ++ "' not found in configuration."

theorem isSuccess_apply_eq_false_iff (hm : ∀ name, name ∈ r ↔ name ∈ olds) :
    (r.apply c).isSuccess = false ↔ ∃ name ∈ olds, name ∉ c.types := by
  rw [← Bool.not_eq_true, isSuccess_apply_iff, Applies]
  simp only [hm, not_forall, exists_prop]

theorem reports_of_apply (hm : ∀ name, name ∈ r ↔ name ∈ olds) (ho : r.keys.Pairwise before)
    (h : r.apply c = .failure e) : Reports olds before c e := by
  have hcauses : e.causes =
      (r.keys.filter fun name => name ∉ c.types).map fun name => ⟨⟨name⟩, []⟩ := by
    rw [← causes_apply, h]
    rfl
  have hnames : e.messages.map MissingType.name = r.keys.filter fun name => name ∉ c.types := by
    simp [Failure.messages, hcauses, Function.comp_def]
  refine ⟨fun name => ?_, ?_, ?_, ?_, fun _ _ => rfl⟩
  · rw [hnames, List.mem_filter, decide_eq_true_eq, ← hm]
    rfl
  · rw [hnames]
    exact r.nodup_keys.filter _
  · rw [hnames]
    exact ho.filter _
  · intro cause hcause
    rw [hcauses] at hcause
    obtain ⟨name, -, rfl⟩ := List.mem_map.mp hcause
    rfl

/-- Renaming by a list of pairs or by a record fails if and only if some old name is no type of
the configuration, and then it reports these names: those of a list in the order in which they
are first given, and those of a record in the order of its keys. -/
theorem missing_names_reported (pairs : List (String × String)) (c : Config) :
    (((ofPairs pairs).apply c).isSuccess = false ↔ ∃ name ∈ pairs.map Prod.fst, name ∉ c.types) ∧
    (∀ e, (ofPairs pairs).apply c = .failure e →
      Reports (pairs.map Prod.fst) (Table.GivenOrder (pairs.map Prod.fst)) c e) ∧
    (((ofRecord pairs).apply c).isSuccess = false ↔ ∃ name ∈ pairs.map Prod.fst, name ∉ c.types) ∧
    ∀ e, (ofRecord pairs).apply c = .failure e →
      Reports (pairs.map Prod.fst) (Table.RecordOrder (pairs.map Prod.fst)) c e := by
  refine ⟨isSuccess_apply_eq_false_iff fun _ => Table.mem_ofList_iff, fun e h => ?_,
    isSuccess_apply_eq_false_iff fun _ => Table.mem_ofRecord_iff, fun e h => ?_⟩
  · exact reports_of_apply (fun _ => Table.mem_ofList_iff) (Table.pairwise_keys_ofList pairs) h
  · exact reports_of_apply (fun _ => Table.mem_ofRecord_iff) (Table.pairwise_keys_ofRecord pairs) h

def absent : List (String × String) :=
  [("b", "X"), ("10", "Y"), ("A", "10"), ("9", "Z"), ("b", "W")]

def lacking (names : List String) (h : names ≠ []) : Failure MissingType :=
  ⟨names.map fun name => ⟨⟨name⟩, []⟩, mt List.map_eq_nil_iff.mp h⟩

theorem missing_names_reported_ring :
    (ofPairs absent).apply ring = .failure (lacking ["b", "10", "9"] (by decide)) ∧
    Reports (absent.map Prod.fst) (Table.GivenOrder (absent.map Prod.fst)) ring
      (lacking ["b", "10", "9"] (by decide)) ∧
    ∃ e, (ofRecord absent).apply ring = .failure e ∧
      Reports (absent.map Prod.fst) (Table.RecordOrder (absent.map Prod.fst)) ring e := by
  obtain ⟨-, hpairs, hfails, hrecord⟩ := missing_names_reported absent ring
  have hp : (ofPairs absent).apply ring = .failure (lacking ["b", "10", "9"] (by decide)) := by
    decide
  have hlost : ∃ name ∈ absent.map Prod.fst, name ∉ ring.types := by decide
  obtain ⟨e, he⟩ := Validation.isSuccess_eq_false_iff.mp (hfails.mpr hlost)
  exact ⟨hp, hpairs _ hp, e, he, hrecord e he⟩

end TypeGraph.Renaming
