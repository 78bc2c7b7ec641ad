import TypeGraph.Proofs.Outline.Reading

/-! The records that an outline is read as. Whether the outline is a configuration, and which
reference is the error if it is none, is decided by the references that these records keep. -/

namespace TypeGraph

namespace Table

variable {α β : Type} {R : α → β → Prop} {pairs : List (String × α)} {t t' : Table String β}
  {name : String}

def last? (pairs : List (String × α)) (name : String) : Option α :=
  (pairs.findRev? fun p => p.1 = name).map Prod.snd

/-- Pairs are written into a record, its keys in record order. Under every key stands what `R`
relates to the last value of that name. -/
structure Recorded (R : α → β → Prop) (pairs : List (String × α)) (t : Table String β) : Prop where
  order : t.keys.Pairwise (RecordOrder (pairs.map Prod.fst))
  values : ∀ name, Option.Rel R (last? pairs name) (t.get? name)

theorem get?_ofRecord (pairs : List (String × α)) (name : String) :
    (ofRecord pairs).get? name = last? pairs name := by
  have hsame : (ofRecord pairs).get? name = (ofList pairs).get? name := by
    ext a
    rw [get?_eq_some_iff, get?_eq_some_iff]
    exact (perm_entries_ofRecord pairs).mem_iff
  rw [hsame, get?_ofList, last?]

theorem recorded_ofRecord_map {f : α → β} (h : ∀ a, R a (f a)) (pairs : List (String × α)) :
    Recorded R pairs ((ofRecord pairs).map f) where
  order := by
    rw [keys_map]
    exact pairwise_keys_ofRecord pairs
  values name := by
    rw [get?_map, get?_ofRecord]
    cases last? pairs name with
    | none => exact .none
    | some a => exact .some (h a)

theorem Recorded.mem_iff (h : Recorded R pairs t) :
    name ∈ t ↔ ∃ a, last? pairs name = some a := by
  rw [mem_iff_exists_get?]
  have hvalue := h.values name
  generalize last? pairs name = given, t.get? name = found at hvalue ⊢
  cases hvalue <;> simp

theorem Recorded.unique (functional : ∀ a b b', R a b → R a b' → b = b')
    (h : Recorded R pairs t) (h' : Recorded R pairs t') : t = t' := by
  have hkeys : t.keys = t'.keys :=
    eq_of_pairwise (fun _ _ => RecordOrder.asymm) h.order h'.order fun _ =>
      h.mem_iff.trans h'.mem_iff.symm
  refine eq_of_keys_of_get? hkeys fun name _ => ?_
  have hvalue := h.values name
  have hvalue' := h'.values name
  generalize last? pairs name = given, t.get? name = found, t'.get? name = found'
    at hvalue hvalue' ⊢
  cases hvalue with
  | none =>
    cases hvalue'
    rfl
  | some hb =>
    cases hvalue' with
    | some hb' => rw [functional _ _ _ hb hb']

theorem recorded_iff_eq_map {f : α → β} (hR : ∀ a b, R a b ↔ b = f a) :
    Recorded R pairs t ↔ t = (ofRecord pairs).map f := by
  have hmap : Recorded R pairs ((ofRecord pairs).map f) :=
    recorded_ofRecord_map (fun a => (hR a (f a)).mpr rfl) pairs
  constructor
  · intro h
    refine h.unique (fun a b b' hb hb' => ?_) hmap
    rw [(hR a b).mp hb, (hR a b').mp hb']
  · rintro rfl
    exact hmap

theorem recorded_eq_iff {s : Table String α} : Recorded Eq pairs s ↔ s = ofRecord pairs := by
  have h : Recorded Eq pairs s ↔ s = (ofRecord pairs).map id :=
    recorded_iff_eq_map fun _ _ => eq_comm
  rwa [map_id] at h

end Table

structure FieldRecord where
  type : String
  args : Table String String

abbrev OutlineRecord := Table String (Table String FieldRecord)

structure FieldOutline.Written (d : FieldOutline) (f : FieldRecord) : Prop where
  type : f.type = d.type
  args : Table.Recorded Eq d.args f.args

def Outline.Written (d : Outline) (types : OutlineRecord) : Prop :=
  Table.Recorded (Table.Recorded FieldOutline.Written) d.types types

structure FieldRecord.Reads (f : FieldRecord) (field : Field) : Prop where
  type : Reference.Reads f.type field.type
  args : f.args.Alike Reference.Reads field.args

def FieldRecord.texts (f : FieldRecord) : List String := f.args.values ++ [f.type]

def OutlineRecord.texts (types : OutlineRecord) : List String :=
  types.values.flatMap fun fields => fields.values.flatMap FieldRecord.texts

section Records

variable {outline : Outline} {c : Config}

def FieldOutline.record (d : FieldOutline) : FieldRecord := ⟨d.type, Table.ofRecord d.args⟩

def Outline.record (d : Outline) : OutlineRecord :=
  (Table.ofRecord d.types).map fun fields => (Table.ofRecord fields).map FieldOutline.record

theorem FieldOutline.written_iff (d : FieldOutline) (f : FieldRecord) :
    d.Written f ↔ f = d.record := by
  obtain ⟨type, args⟩ := f
  constructor
  · rintro ⟨htype, hargs⟩
    obtain rfl : type = d.type := htype
    obtain rfl : args = Table.ofRecord d.args := Table.recorded_eq_iff.mp hargs
    rfl
  · intro h
    obtain ⟨rfl, rfl⟩ := FieldRecord.mk.inj h
    exact ⟨rfl, Table.recorded_eq_iff.mpr rfl⟩

theorem Outline.written_iff {types : OutlineRecord} :
    outline.Written types ↔ types = outline.record :=
  Table.recorded_iff_eq_map fun _ _ => Table.recorded_iff_eq_map FieldOutline.written_iff

theorem Outline.texts_record (d : Outline) : d.record.texts = d.texts := by
  have hfields : ∀ fields : List (String × FieldOutline),
      ((Table.ofRecord fields).map FieldOutline.record).values.flatMap FieldRecord.texts =
        (Table.ofRecord fields).values.flatMap FieldOutline.texts := fun fields => by
    rw [Table.values_map, List.flatMap_map]
    rfl
  rw [OutlineRecord.texts, Outline.record, Table.values_map, List.flatMap_map, Outline.texts]
  simp only [hfields]

theorem Outline.describes_iff_record :
    outline.Describes Reference.Reads c ↔
      c.roots = outline.roots ∧ outline.record.Alike (Table.Alike FieldRecord.Reads) c.types := by
  have hfield : FieldOutline.Describes Reference.Reads = fun d => d.record.Reads := by
    funext d field
    exact propext ⟨fun h => ⟨h.type, h.args⟩, fun h => ⟨h.type, h.args⟩⟩
  -- Both sides compare the same tables, one before and one after they are mapped to records.
  have hfields : FieldOutline.DescribesAll Reference.Reads = fun ds =>
      ((Table.ofRecord ds).map FieldOutline.record).Alike FieldRecord.Reads := by
    funext ds fields
    rw [Table.alike_map_left_iff, FieldOutline.DescribesAll, hfield]
  rw [Outline.record, Table.alike_map_left_iff, ← hfields]
  exact ⟨fun h => ⟨h.roots, h.types⟩, fun h => ⟨h.1, h.2⟩⟩

/-- The outcome of reading an outline is decided by the records that it is written into. It is a
configuration if every reference there is legal, and otherwise the first illegal one is the error.
The configuration has what is in the records, in the same order. A field that is given by its
reference alone has no arguments. -/
theorem Config.ofOutline_by_record (d : Outline) :
    (∃ types : OutlineRecord, (∀ types', d.Written types' ↔ types' = types) ∧
      ((∃ c, ofOutline d = .ok c) ↔ ∀ text ∈ types.texts, ∃ r, Reference.parse text = .ok r) ∧
      (∀ e, ofOutline d = .error e ↔ ∃ before after, types.texts = before ++ e.text :: after ∧
        (∀ text ∈ before, ∃ r, Reference.parse text = .ok r) ∧ Reference.parse e.text = .error e) ∧
      ∀ c, ofOutline d = .ok c ↔
        c.roots = d.roots ∧ types.Alike (Table.Alike FieldRecord.Reads) c.types) ∧
    ∀ text f, FieldOutline.Written { type := text } f ↔ f = ⟨text, Table.empty⟩ := by
  refine ⟨⟨d.record, fun _ => Outline.written_iff, ?_, fun e => ?_, fun c => ?_⟩, fun text f => ?_⟩
  · rw [Outline.texts_record]
    exact exists_ofOutline_eq_ok_iff
  · rw [Outline.texts_record]
    exact ofOutline_eq_error_iff_first
  · rw [ofOutline_eq_ok_iff, Outline.describes_iff_record]
  · rw [FieldOutline.written_iff, FieldOutline.record, Table.ofRecord_nil]

/-- The number comes first among the types, the second `c` is the one that is kept, and the
arguments come before their field. -/
example : Config.ofOutline ⟨{}, [
    ("A", [("b", { type := "!" })]),
    ("7", [("c", { type := "]" }), ("d", ⟨"]", [("x", "[X]"), ("y", "[Y")]⟩),
      ("c", { type := "C" })])]⟩ = .error ⟨"[Y"⟩ := by cbv

end Records

end TypeGraph
