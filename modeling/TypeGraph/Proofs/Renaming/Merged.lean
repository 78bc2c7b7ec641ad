import TypeGraph.Proofs.Place
import TypeGraph.Proofs.Renaming.Told

/-! Names that a renaming merges. One that tells nothing merges no two types, but it can give a
type the name of something that the configuration refers to and does not hold. -/

namespace TypeGraph

def Config.Uses (c : Config) (name : String) : Prop := name ∈ c.types ∨ c.Refers name

namespace Renaming

variable {r : Renaming} {c : Config} {out : Renamed} {old name name' : String}

/-- The old name gets a name that no type of the configuration has. -/
def Takes (r : Renaming) (c : Config) (old name : String) : Prop :=
  r.get? old = some name ∧ name ∉ c.types

theorem Applies.resolve_eq_self (h : r.Applies c) (hm : name ∉ c.types) :
    r.resolve name = name := resolve_of_notMem fun hr => hm (h name hr)

theorem get?_of_resolve_eq (he : r.resolve old = name) (hne : old ≠ name) :
    r.get? old = some name := by
  have ho : old ∈ r := by
    by_contra hr
    exact hne ((resolve_of_notMem hr).symm.trans he)
  rw [← he]
  exact Table.get?_eq_some_iff.mpr (mem_entries_resolve ho)

theorem Takes.resolve_eq (ht : r.Takes c old name) (h : r.Applies c) :
    r.resolve old = r.resolve name := by
  rw [h.resolve_eq_self ht.2]
  exact resolve_of_mem (Table.get?_eq_some_iff.mp ht.1)

theorem takes_of_resolve_eq (h : r.Applies c) (hq : (r.rename c).collisions = [])
    (he : r.resolve name = r.resolve name') (hne : name ≠ name') :
    r.Takes c name name' ∨ r.Takes c name' name := by
  by_cases hm : name ∈ c.types
  · -- Two types that get one name are told of, so the other name is no type.
    have hm' : name' ∉ c.types := fun hm' => hne (resolve_inj h hq hm hm' he)
    rw [h.resolve_eq_self hm'] at he
    exact .inl ⟨get?_of_resolve_eq he hne, hm'⟩
  · rw [h.resolve_eq_self hm] at he
    exact .inr ⟨get?_of_resolve_eq he.symm hne.symm, hm⟩

theorem mem_rename_iff_takes (h : r.Applies c) (hm : name ∉ c.types) :
    name ∈ (r.rename c).config.types ↔ ∃ old, r.Takes c old name := by
  have hkeeps : ¬ r.Keeps c.types name := fun hk => hm hk.1
  rw [mem_rename_iff_keeps h, or_iff_right hkeeps]
  constructor
  · rintro ⟨⟨old, new⟩, hp, rfl⟩
    exact ⟨old, Table.get?_eq_some_iff.mpr hp, hm⟩
  · rintro ⟨old, ho, -⟩
    exact ⟨(old, name), Table.get?_eq_some_iff.mp ho, rfl⟩

/-- A renaming that tells nothing merges two names if and only if one of them is renamed to the
other and that is no type. A name that is no type stays as it is, and it becomes the name of a
type if and only if some type is renamed to it. -/
theorem merged_in_silence (h : r.apply c = .success out) (hq : out.notices = []) :
    (∀ name name', name ≠ name' →
      (r.resolve name = r.resolve name' ↔ r.Takes c name name' ∨ r.Takes c name' name)) ∧
    ∀ name, name ∉ c.types →
      r.resolve name = name ∧ (name ∈ out.config.types ↔ ∃ old, r.Takes c old name) := by
  obtain ⟨ha, rfl⟩ := apply_eq_success_iff.mp h
  refine ⟨fun name name' hne => ⟨fun he => ?_, ?_⟩, fun name hm => ?_⟩
  · exact takes_of_resolve_eq ha (notices_eq_nil_iff.mp hq) he hne
  · rintro (ht | ht)
    · exact ht.resolve_eq ha
    · exact (ht.resolve_eq ha).symm
  · exact ⟨ha.resolve_eq_self hm, mem_rename_iff_takes ha hm⟩

def scalarName : List (String × String) := [("A", "ID")]

theorem merged_in_silence_scalarName :
    (ofPairs scalarName).apply ring = .success ((ofPairs scalarName).rename ring) ∧
    ((ofPairs scalarName).rename ring).notices = [] ∧
    ((ofPairs scalarName).resolve "A" = (ofPairs scalarName).resolve "ID" ↔
      (ofPairs scalarName).Takes ring "A" "ID" ∨ (ofPairs scalarName).Takes ring "ID" "A") ∧
    (ofPairs scalarName).resolve "A" ≠ (ofPairs scalarName).resolve "B" ∧
    "ID" ∈ ((ofPairs scalarName).rename ring).config.types := by
  have happ : (ofPairs scalarName).apply ring =
      .success ((ofPairs scalarName).rename ring) := by decide
  have hquiet : ((ofPairs scalarName).rename ring).notices = [] := by decide
  have htakes : (ofPairs scalarName).Takes ring "A" "ID" := ⟨rfl, by decide⟩
  obtain ⟨hmerged, hnew⟩ := merged_in_silence happ hquiet
  refine ⟨happ, hquiet, hmerged "A" "ID" (by decide), fun he => ?_,
    (hnew "ID" htakes.2).2.mpr ⟨"A", htakes⟩⟩
  rcases (hmerged "A" "B" (by decide)).mp he with ht | ht
  · exact absurd ht.2 (by decide)
  · exact absurd ht.2 (by decide)

/-- A type can take a name that is in use without a line that tells it. -/
theorem type_takes_scalar_name :
    ¬ ∀ (r : Renaming) (c : Config) (out : Renamed), r.apply c = .success out →
      out.notices = [] → ∀ name name', c.Uses name → c.Uses name' → name ≠ name' →
        r.resolve name ≠ r.resolve name' := by
  intro h
  have hscalar : ring.Refers "ID" := ⟨⟨"A", "b", some "id"⟩, ⟨"ID", false, true⟩, rfl, rfl⟩
  exact h (ofPairs scalarName) ring ((ofPairs scalarName).rename ring) (by decide) (by decide)
    "A" "ID" (.inl (by decide)) (.inr hscalar) (by decide) (by decide)

end Renaming
end TypeGraph
