import TypeGraph.Proofs.Renaming.Missing
import TypeGraph.Proofs.Renaming.Roots
import TypeGraph.Proofs.Renaming.Ledger
import TypeGraph.Proofs.Renaming.Twice

/-! One renaming given in two orders. The order of the pairs shows only where two of them have
the same new name. -/

namespace TypeGraph.Renaming

open Arrangement

def Reorders (r s : Renaming) : Prop := r.entries.Perm s.entries

theorem reorders_ofRecord (pairs : List (String × String)) :
    (ofPairs pairs).Reorders (ofRecord pairs) := (Table.perm_entries_ofRecord pairs).symm

namespace Reorders

variable {r s : Renaming} {c : Config} {name : String}

theorem mem_iff (h : Reorders r s) : name ∈ r ↔ name ∈ s := (h.map Prod.fst).mem_iff

theorem mem_entries_iff (h : Reorders r s) {p : String × String} :
    p ∈ r.entries ↔ p ∈ s.entries := List.Perm.mem_iff h

theorem resolve_eq (h : Reorders r s) : r.resolve = s.resolve := by
  funext name
  by_cases hr : name ∈ r
  · exact (resolve_of_mem (h.mem_entries_iff.mp (mem_entries_resolve hr))).symm
  · rw [resolve_of_notMem hr, resolve_of_notMem fun hs => hr (h.mem_iff.mpr hs)]

theorem applies_iff (h : Reorders r s) : r.Applies c ↔ s.Applies c :=
  forall_congr' fun _ => imp_congr_left h.mem_iff

theorem perm_causes (h : Reorders r s) (c : Config) :
    (r.apply c).causes.Perm (s.apply c).causes := by
  rw [causes_apply, causes_apply]
  exact ((h.map Prod.fst).filter _).map _

theorem renameRoots_eq (h : Reorders r s) (roots : Roots String) :
    r.renameRoots roots = s.renameRoots roots :=
  Roots.eq_of_get fun k => by rw [get_renameRoots, get_renameRoots, h.resolve_eq]

theorem nodup_values (h : Reorders r s) (hn : r.values.Nodup) : s.values.Nodup :=
  (h.map Prod.snd).nodup_iff.mp hn

theorem firstOld?_eq (h : Reorders r s) (hn : r.values.Nodup) (name : String) :
    firstOld? s.entries name = firstOld? r.entries name := by
  ext old
  rw [firstOld?_eq_some_iff (h.nodup_values hn), firstOld?_eq_some_iff hn]
  exact h.mem_entries_iff.symm

theorem lastOld?_eq (h : Reorders r s) (hn : r.values.Nodup) (name : String) :
    lastOld? s.entries name = lastOld? r.entries name := by
  ext old
  rw [lastOld?_eq_some_iff (h.nodup_values hn), lastOld?_eq_some_iff hn]
  exact h.mem_entries_iff.symm

theorem keeps_iff (h : Reorders r s) {types : Table String Fields} :
    s.Keeps types name ↔ r.Keeps types name := and_congr_right fun _ => not_congr h.mem_iff.symm

theorem factors (h : Reorders r s) (hn : r.values.Nodup) (hr : r.Applies c) :
    Factors c r Table.empty s where
  first := hr
  second := applies_empty _
  whole := h.applies_iff.mp hr
  resolve name _ := by rw [resolve_empty, h.resolve_eq]
  bearer name _ := by rw [bearer_empty, bearer, h.lastOld?_eq hn, ← bearer]
  holder name _ := by
    rw [holder_empty, holder, holder, h.firstOld?_eq hn]
    simp only [h.keeps_iff]

theorem config_eq (h : Reorders r s) (hn : r.values.Nodup) (hr : r.Applies c) :
    (r.rename c).config = (s.rename c).config := by
  have htypes := (h.factors hn hr).types_eq
  rw [rename_empty] at htypes
  exact Config.ext htypes.symm (h.renameRoots_eq c.roots)

theorem perm_collisions (h : Reorders r s) (hn : r.values.Nodup) (hr : r.Applies c) :
    (r.rename c).collisions.Perm (s.rename c).collisions := by
  have hs := h.applies_iff.mp hr
  have hfirst : (r.rename c).collisions = _ := collisions_placeAll_of_nodup hr.fst_mem hn
  have hsecond : (s.rename c).collisions = _ :=
    collisions_placeAll_of_nodup hs.fst_mem (h.nodup_values hn)
  rw [hfirst, hsecond]
  simp only [h.keeps_iff]
  exact (List.Perm.filter _ h).map _

end Reorders

/-- Two orders of one renaming go through for the same configurations, report the same missing
names and lead to the same roots. When no new name is given twice they lead to the same
configuration and tell the same lines. The key order of a record is one such order. -/
theorem apply_reordered (c : Config) :
    (∀ pairs, (ofPairs pairs).Reorders (ofRecord pairs)) ∧
    ∀ r s : Renaming, r.Reorders s →
      ((r.apply c).isSuccess = true ↔ (s.apply c).isSuccess = true) ∧
      (∀ e e', r.apply c = .failure e → s.apply c = .failure e' →
        (e.messages.map MissingType.message).Perm (e'.messages.map MissingType.message)) ∧
      ∀ out out', r.apply c = .success out → s.apply c = .success out' →
        out.config.roots = out'.config.roots ∧
        (r.values.Nodup → out.config = out'.config ∧ out.notices.Perm out'.notices) := by
  refine ⟨reorders_ofRecord, fun r s h => ⟨?_, ?_, ?_⟩⟩
  · rw [isSuccess_apply_iff, isSuccess_apply_iff, h.applies_iff]
  · intro e e' he he'
    have hcauses := h.perm_causes c
    rw [he, he'] at hcauses
    exact (hcauses.map Cause.message).map MissingType.message
  · intro out out' hout hout'
    obtain ⟨hr, rfl⟩ := apply_eq_success_iff.mp hout
    obtain ⟨-, rfl⟩ := apply_eq_success_iff.mp hout'
    exact ⟨h.renameRoots_eq c.roots,
      fun hn => ⟨h.config_eq hn hr, (h.perm_collisions hn hr).map _⟩⟩

def numbered : Config :=
  ⟨Table.ofList [
    ("10", Table.ofList [("a", ⟨⟨"A", true, true⟩, Table.empty⟩)]),
    ("A", Table.ofList [("b", ⟨⟨"B", false, false⟩, Table.ofList [("of", ⟨"9", false, true⟩)]⟩)]),
    ("9", Table.ofList [("ten", ⟨⟨"10", true, false⟩, Table.empty⟩)]),
    ("B", Table.ofList [("id", ⟨⟨"ID", false, true⟩, Table.empty⟩)])],
    { query := some "A", mutation := some "10" }⟩

def exchange : List (String × String) := [("A", "B"), ("10", "9"), ("9", "10")]

theorem apply_reordered_numbered :
    (ofPairs exchange).Reorders (ofRecord exchange) ∧
    (ofPairs exchange).apply numbered = .success ((ofPairs exchange).rename numbered) ∧
    (ofRecord exchange).apply numbered = .success ((ofRecord exchange).rename numbered) ∧
    (ofPairs exchange).values.Nodup ∧
    ((ofPairs exchange).rename numbered).config = ((ofRecord exchange).rename numbered).config ∧
    ((ofPairs exchange).rename numbered).notices.Perm
      ((ofRecord exchange).rename numbered).notices ∧
    ∃ e e', (ofPairs absent).apply ring = .failure e ∧ (ofRecord absent).apply ring = .failure e' ∧
      (e.messages.map MissingType.message).Perm (e'.messages.map MissingType.message) := by
  have hpairs : (ofPairs exchange).apply numbered =
      .success ((ofPairs exchange).rename numbered) := by decide
  have hrecord : (ofRecord exchange).apply numbered =
      .success ((ofRecord exchange).rename numbered) := by
    have happ := (reorders_ofRecord exchange).applies_iff.mp (apply_eq_success_iff.mp hpairs).1
    exact apply_eq_success_iff.mpr ⟨happ, rfl⟩
  have hnew : (ofPairs exchange).values.Nodup := by decide
  obtain ⟨horder, hsame⟩ := apply_reordered numbered
  obtain ⟨-, -, hout⟩ := hsame _ _ (horder exchange)
  obtain ⟨hconfig, hlines⟩ := (hout _ _ hpairs hrecord).2 hnew
  obtain ⟨-, herror, -⟩ := (apply_reordered ring).2 _ _ (horder absent)
  obtain ⟨e, he⟩ : ∃ e, (ofPairs absent).apply ring = .failure e :=
    Validation.isSuccess_eq_false_iff.mp (by decide)
  obtain ⟨e', he'⟩ : ∃ e', (ofRecord absent).apply ring = .failure e' :=
    Validation.isSuccess_eq_false_iff.mp
      ((isSuccess_apply_eq_false_iff fun _ => Table.mem_ofRecord_iff).mpr (by decide))
  exact ⟨horder exchange, hpairs, hrecord, hnew, hconfig, hlines, e, e', he, he',
    herror e e' he he'⟩

end TypeGraph.Renaming
