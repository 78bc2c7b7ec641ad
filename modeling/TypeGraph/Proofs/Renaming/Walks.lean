import TypeGraph.Proofs.Renaming.Order
import TypeGraph.Proofs.Renaming.Told

/-! Walks along the fields of a configuration. A renaming without a collision takes a walk to the
walk from the renamed start along the same fields. -/

namespace TypeGraph

/-- Where a walk stands, and the field that led there if it has taken a step. -/
structure Stop where
  name : String
  field? : Option Field
  deriving DecidableEq

namespace Config

def step? (c : Config) (stop : Stop) (field : String) : Option Stop :=
  (c.field? stop.name field).map fun f => ⟨f.type.target, some f⟩

def walk? (c : Config) (start : String) (path : List String) : Option Stop :=
  path.foldlM c.step? ⟨start, none⟩

theorem step?_eq_some_iff {c : Config} {stop next : Stop} {field : String} :
    c.step? stop field = some next ↔
      ∃ fields f, c.type? stop.name = some fields ∧ fields.get? field = some f ∧
        next = ⟨f.type.target, some f⟩ := by
  unfold step? field?
  rw [Option.map_eq_some_iff]
  constructor
  · rintro ⟨f, hf, rfl⟩
    obtain ⟨fields, ht, hf⟩ := Option.bind_eq_some_iff.mp hf
    exact ⟨fields, f, ht, hf, rfl⟩
  · rintro ⟨fields, f, ht, hf, rfl⟩
    exact ⟨f, Option.bind_eq_some_iff.mpr ⟨fields, ht, hf⟩, rfl⟩

end Config

namespace Renaming

variable {r : Renaming} {c : Config} {out : Renamed} {start old : String} {path : List String}
  {stop stop' next : Stop}

structure Matches (r : Renaming) (stop stop' : Stop) : Prop where
  name : stop'.name = r.resolve stop.name
  field : Option.Rel (Field.Retargeted r.resolve) stop.field? stop'.field?

theorem type?_resolve (h : r.Applies c) (hq : (r.rename c).collisions = []) {fields : Fields}
    (ht : c.type? old = some fields) :
    (r.rename c).config.type? (r.resolve old) = some (fields.mapTargets r.resolve) := by
  have ho : old ∈ c.types := Table.mem_of_get?_eq_some ht
  obtain ⟨fields', hf, hf'⟩ := type?_rename_of_mem h (resolve_mem_rename h ho)
  have hsame : some fields' = some fields := by
    rw [← hf, bearer_resolve h hq ho, ht]
  rw [hf', Option.some.inj hsame]

theorem exists_step?_rename (h : r.Applies c) (hq : (r.rename c).collisions = [])
    (hm : r.Matches stop stop') {field : String} (hs : c.step? stop field = some next) :
    ∃ next', (r.rename c).config.step? stop' field = some next' ∧ r.Matches next next' := by
  obtain ⟨fields, f, ht, hf, rfl⟩ := Config.step?_eq_some_iff.mp hs
  have ht' := type?_resolve h hq ht
  have hf' : (fields.mapTargets r.resolve).get? field = some (f.mapTargets r.resolve) := by
    simp [hf]
  rw [← hm.name] at ht'
  exact ⟨_, Config.step?_eq_some_iff.mpr ⟨_, _, ht', hf', rfl⟩, rfl,
    .some (f.retargeted_mapTargets r.resolve)⟩

theorem exists_foldlM_step?_rename (h : r.Applies c) (hq : (r.rename c).collisions = [])
    (hm : r.Matches stop stop') (hs : path.foldlM c.step? stop = some next) :
    ∃ next', path.foldlM (r.rename c).config.step? stop' = some next' ∧ r.Matches next next' := by
  induction path generalizing stop stop' with
  | nil =>
    obtain rfl := Option.some.inj hs
    exact ⟨stop', rfl, hm⟩
  | cons field path ih =>
    rw [List.foldlM_cons] at hs
    obtain ⟨mid, hmid, hrest⟩ := Option.bind_eq_some_iff.mp hs
    obtain ⟨mid', hmid', hm'⟩ := exists_step?_rename h hq hm hmid
    obtain ⟨next', hnext, hlast⟩ := ih hm' hrest
    refine ⟨next', ?_, hlast⟩
    rw [List.foldlM_cons, hmid']
    exact hnext

/-- A renaming that tells nothing keeps every walk. Where a path of fields ends at a name, the same
path from the renamed start ends at the renamed name, by a field with the same flags and with the
same arguments, their types renamed. -/
theorem walk_renamed (h : r.apply c = .success out) (hq : out.notices = [])
    (hw : c.walk? start path = some stop) :
    ∃ stop', out.config.walk? (r.resolve start) path = some stop' ∧
      stop'.name = r.resolve stop.name ∧
      Option.Rel (Field.Retargeted r.resolve) stop.field? stop'.field? := by
  obtain ⟨ha, rfl⟩ := apply_eq_success_iff.mp h
  have hstart : r.Matches ⟨start, none⟩ ⟨r.resolve start, none⟩ := ⟨rfl, .none⟩
  obtain ⟨stop', hs, hm⟩ := exists_foldlM_step?_rename ha (notices_eq_nil_iff.mp hq) hstart hw
  exact ⟨stop', hs, hm.name, hm.field⟩

def backToB : Stop :=
  ⟨"B", some ⟨⟨"B", true, false⟩, Table.ofList [("id", ⟨"ID", false, true⟩)]⟩⟩

theorem walk_renamed_cycle :
    (ofPairs cycle).apply ring = .success ((ofPairs cycle).rename ring) ∧
    ((ofPairs cycle).rename ring).notices = [] ∧
    ring.walk? "B" ["c", "a", "b"] = some backToB ∧
    ∃ stop', ((ofPairs cycle).rename ring).config.walk? "A" ["c", "a", "b"] = some stop' ∧
      stop'.name = "A" ∧
      Option.Rel (Field.Retargeted (ofPairs cycle).resolve) backToB.field? stop'.field? := by
  have happ : (ofPairs cycle).apply ring = .success ((ofPairs cycle).rename ring) := by decide
  have hquiet : ((ofPairs cycle).rename ring).notices = [] := by decide
  have hwalk : ring.walk? "B" ["c", "a", "b"] = some backToB := by decide
  exact ⟨happ, hquiet, hwalk, walk_renamed happ hquiet hwalk⟩

end Renaming
end TypeGraph
