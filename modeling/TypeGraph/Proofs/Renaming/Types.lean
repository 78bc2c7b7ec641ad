import TypeGraph.Proofs.Alike
import TypeGraph.Proofs.Renaming.Result

/-! The types of a renamed configuration, each with the fields of one type of the input in
which every reference is resolved once. -/

namespace TypeGraph

structure Reference.Retargeted (f : String → String) (before after : Reference) : Prop where
  target : after.target = f before.target
  list : after.list = before.list
  required : after.required = before.required

structure Field.Retargeted (f : String → String) (before after : Field) : Prop where
  type : before.type.Retargeted f after.type
  args : before.args.Alike (Reference.Retargeted f) after.args

def Fields.Retargeted (f : String → String) (before after : Fields) : Prop :=
  before.Alike (Field.Retargeted f) after

theorem Reference.retargeted_mapTarget (f : String → String) (r : Reference) :
    r.Retargeted f (r.mapTarget f) := ⟨rfl, rfl, rfl⟩

theorem Field.retargeted_mapTargets (f : String → String) (field : Field) :
    field.Retargeted f (field.mapTargets f) :=
  ⟨field.type.retargeted_mapTarget f,
    Table.alike_map (Reference.retargeted_mapTarget f) field.args⟩

theorem Fields.retargeted_mapTargets (f : String → String) (fields : Fields) :
    fields.Retargeted f (fields.mapTargets f) :=
  Table.alike_map (Field.retargeted_mapTargets f) fields

namespace Renaming

variable {r : Renaming} {c : Config} {out : Renamed} {old name : String}

/-- The type `old` ends under a name: it is the old name of the last pair with this new name,
or there is no such pair and the type is not renamed. -/
def EndsUnder (r : Renaming) (old name : String) : Prop :=
  match lastOld? r.entries name with
  | some last => old = last
  | none => old = name ∧ name ∉ r

structure TypesRenamed (r : Renaming) (before after : Config) : Prop where
  names : ∀ name, name ∈ after.types ↔ ∃ old ∈ before.types, r.resolve old = name
  fields : ∀ name ∈ after.types, ∃ old fields fields', r.EndsUnder old name ∧
    before.type? old = some fields ∧ after.type? name = some fields' ∧
    fields.Retargeted r.resolve fields'

theorem endsUnder_bearer (h : r.Applies c) (hm : name ∈ (r.rename c).config.types) :
    r.EndsUnder (bearer r.entries name) name := by
  unfold bearer EndsUnder
  cases hlast : lastOld? r.entries name with
  | some last => rfl
  | none => exact ⟨rfl, (keeps_of_lastOld?_eq_none h hm hlast).2⟩

theorem EndsUnder.eq_bearer (h : r.EndsUnder old name) : old = bearer r.entries name := by
  unfold EndsUnder at h
  unfold bearer
  cases hlast : lastOld? r.entries name with
  | some last =>
    rw [hlast] at h
    exact h
  | none =>
    rw [hlast] at h
    exact h.1

/-- The types that come out of a list of pairs. A repeated old name keeps its first place and
has its last new name. -/
theorem apply_ofPairs_types {pairs : List (String × String)}
    (h : (ofPairs pairs).apply c = .success out) :
    ((ofPairs pairs).keys = (pairs.map Prod.fst).eraseDups ∧
      ∀ old, (ofPairs pairs).get? old = (pairs.findRev? fun p => p.1 = old).map Prod.snd) ∧
    TypesRenamed (ofPairs pairs) c out.config := by
  obtain ⟨ha, rfl⟩ := apply_eq_success_iff.mp h
  refine ⟨⟨Table.keys_ofList pairs, Table.get?_ofList pairs⟩, fun name => mem_rename_iff ha,
    fun name hm => ?_⟩
  obtain ⟨fields, hf, hf'⟩ := type?_rename_of_mem ha hm
  exact ⟨_, fields, _, endsUnder_bearer ha hm, hf, hf', fields.retargeted_mapTargets _⟩

def ring : Config :=
  ⟨Table.ofList [
    ("A", Table.ofList [("b", ⟨⟨"B", true, false⟩, Table.ofList [("id", ⟨"ID", false, true⟩)]⟩)]),
    ("B", Table.ofList [("c", ⟨⟨"C", false, true⟩, Table.empty⟩)]),
    ("C", Table.ofList [("a", ⟨⟨"A", false, false⟩, Table.ofList [("of", ⟨"B", true, true⟩)]⟩)])],
    { query := some "A" }⟩

def sharedRing : Config := { ring with roots := { query := some "A", mutation := some "A" } }

def chain : List (String × String) := [("A", "B"), ("B", "C"), ("A", "D"), ("C", "D")]

theorem apply_ofPairs_types_ring :
    (ofPairs chain).apply ring = .success ((ofPairs chain).rename ring) ∧
    ((ofPairs chain).keys = (chain.map Prod.fst).eraseDups ∧
      ∀ old, (ofPairs chain).get? old = (chain.findRev? fun p => p.1 = old).map Prod.snd) ∧
    TypesRenamed (ofPairs chain) ring ((ofPairs chain).rename ring).config :=
  ⟨by decide, apply_ofPairs_types (by decide)⟩

end Renaming
end TypeGraph
