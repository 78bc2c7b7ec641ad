import TypeGraph.Config.Outline
import TypeGraph.Proofs.Alike
import TypeGraph.Proofs.Reference.Marks

/-! Reading outlines: what a configuration has in common with the outline that it is read from,
and which reference is the error of an outline that cannot be read. -/

namespace TypeGraph

namespace Table

variable {α β γ : Type} {pairs : List (String × α)} {R : α → β → Prop}

theorem entries_ofRecord (hn : (pairs.map Prod.fst).Nodup)
    (hi : ∀ key ∈ pairs.map Prod.fst, ¬ IsIndex key) : (ofRecord pairs).entries = pairs := by
  have hnone : ∀ e ∈ pairs, index? e.1.toList = none := fun e he =>
    index?_eq_none_iff.mpr (hi e.1 (List.mem_map_of_mem he))
  have hindices : (pairs.filter fun e => (index? e.1.toList).isSome) = [] := by
    rw [List.filter_eq_nil_iff]
    intro e he
    simp [hnone e he]
  have hothers : (pairs.filter fun e => !(index? e.1.toList).isSome) = pairs := by
    rw [List.filter_eq_self]
    intro e he
    simp [hnone e he]
  have hsorted : (ofRecord pairs).entries =
      sortEntries (fun key => index? key.toList) (ofList pairs).entries := rfl
  rw [hsorted, entries_ofList hn, sortEntries, hindices, hothers, List.mergeSort_nil,
    List.nil_append]

theorem ofRecord_nil : ofRecord ([] : List (String × α)) = empty :=
  Table.ext (entries_ofRecord (by simp) (by simp))

theorem alike_ofRecord {t : Table String β} (hi : ∀ key ∈ t, ¬ IsIndex key)
    (h : List.Forall₂ (fun d e => e.1 = d.1 ∧ R d.2 e.2) pairs t.entries) :
    (ofRecord pairs).Alike R t := by
  have hkeys : pairs.map Prod.fst = t.keys :=
    (map_fst_eq_of_forall₂ (h.imp fun _ _ he => he.1)).symm
  have hothers : ∀ key ∈ pairs.map Prod.fst, ¬ IsIndex key := by
    rw [hkeys]
    exact hi
  rwa [Alike, entries_ofRecord (hkeys ▸ t.nodup_keys) hothers]

theorem alike_ofRecord_map (f : γ → α) (g : γ → β) {t : Table String γ}
    (hi : ∀ key ∈ t, ¬ IsIndex key) (h : ∀ c ∈ t.values, R (f c) (g c)) :
    (ofRecord (t.map f).entries).Alike R (t.map g) := by
  have hothers : ∀ key ∈ t.map g, ¬ IsIndex key := by
    intro key hm
    have hkey : key ∈ t.keys := keys_map g t ▸ hm
    exact hi key hkey
  refine alike_ofRecord hothers ?_
  rw [map, map, mapWithKey, mapWithKey, List.forall₂_map_left_iff, List.forall₂_map_right_iff,
    List.forall₂_same]
  exact fun e he => ⟨rfl, h e.2 (List.mem_map_of_mem he)⟩

end Table

variable {R S : String → Reference → Prop} {text : String} {r : Reference} {d : FieldOutline}
  {field : Field} {outline : Outline} {c : Config}

/-- A field has the reference and the arguments of an outline, `R` relating each text to the
reference that stands for it. -/
structure FieldOutline.Describes (R : String → Reference → Prop) (d : FieldOutline)
    (field : Field) : Prop where
  type : R d.type field.type
  args : (Table.ofRecord d.args).Alike R field.args

def FieldOutline.DescribesAll (R : String → Reference → Prop) (ds : List (String × FieldOutline))
    (fields : Fields) : Prop := (Table.ofRecord ds).Alike (FieldOutline.Describes R) fields

structure Outline.Describes (R : String → Reference → Prop) (d : Outline) (c : Config) : Prop where
  roots : c.roots = d.roots
  types : (Table.ofRecord d.types).Alike (FieldOutline.DescribesAll R) c.types

theorem FieldOutline.Describes.mono (h : d.Describes R field)
    (hRS : ∀ text r, R text r → S text r) : d.Describes S field :=
  ⟨hRS _ _ h.type, h.args.mono hRS⟩

theorem Outline.Describes.mono (h : outline.Describes R c) (hRS : ∀ text r, R text r → S text r) :
    outline.Describes S c :=
  ⟨h.roots, h.types.mono fun _ _ hfields => hfields.mono fun _ _ hfield => hfield.mono hRS⟩

namespace Reference

def Reads (text : String) (r : Reference) : Prop := parse text = .ok r

theorem reads_iff : Reads text r ↔ parse? text = some r := parse_eq_ok_iff

theorem reads_render (h : IsName r.target.toList) : Reads r.render r := parse_render h

theorem fault?_parse (text : String) :
    fault? (parse text) = if parse? text = none then some ⟨text⟩ else none := by
  unfold parse
  cases parse? text <;> rfl

end Reference

section Success

theorem Field.ofOutline_eq_ok_iff :
    Field.ofOutline d = .ok field ↔ d.Describes Reference.Reads field := by
  simp only [Field.ofOutline, bind_eq_ok_iff, Table.mapM_eq_ok_iff]
  constructor
  · rintro ⟨args, ha, type, ht, he⟩
    obtain rfl := Except.ok.inj he
    exact ⟨ht, ha⟩
  · intro h
    exact ⟨field.args, h.args, field.type, h.type, rfl⟩

/-- An outline is read as a configuration if and only if it describes it and every text is read
as the reference that stands for it. -/
theorem Config.ofOutline_eq_ok_iff :
    Config.ofOutline outline = .ok c ↔ outline.Describes Reference.Reads c := by
  simp only [Config.ofOutline, bind_eq_ok_iff, Table.mapM_eq_ok_iff, Field.ofOutline_eq_ok_iff]
  constructor
  · rintro ⟨types, ht, he⟩
    obtain rfl := Except.ok.inj he
    exact ⟨rfl, ht⟩
  · rintro ⟨hr, ht⟩
    exact ⟨c.types, ht, by rw [← hr]; rfl⟩

end Success

section Failure

def FieldOutline.texts (d : FieldOutline) : List String :=
  (Table.ofRecord d.args).values ++ [d.type]

def Outline.texts (d : Outline) : List String :=
  (Table.ofRecord d.types).values.flatMap fun fields =>
    (Table.ofRecord fields).values.flatMap FieldOutline.texts

theorem findSome?_flatMap {α β γ : Type} (f : β → Option γ) (g : α → List β) (l : List α) :
    (l.flatMap g).findSome? f = l.findSome? fun a => (g a).findSome? f := by
  induction l with
  | nil => rfl
  | cons a l ih =>
    rw [List.flatMap_cons, List.findSome?_append, ih, List.findSome?_cons]
    cases (g a).findSome? f <;> rfl

theorem Field.fault?_ofOutline (d : FieldOutline) :
    fault? (Field.ofOutline d) = d.texts.findSome? fun text => fault? (Reference.parse text) := by
  have hargs := Table.fault?_mapM Reference.parse (Table.ofRecord d.args)
  rw [FieldOutline.texts, List.findSome?_append, ← hargs, Field.ofOutline]
  cases (Table.ofRecord d.args).mapM fun _ => Reference.parse with
  | error e => rfl
  | ok args =>
    cases ht : Reference.parse d.type <;> simp [ht, fault?, bind, Except.bind, pure, Except.pure]

theorem Config.fault?_ofOutline (outline : Outline) :
    fault? (Config.ofOutline outline) =
      outline.texts.findSome? fun text => fault? (Reference.parse text) := by
  simp only [Outline.texts, findSome?_flatMap, ← Field.fault?_ofOutline, ← Table.fault?_mapM]
  exact fault?_map _

theorem Config.ofOutline_eq_error_iff {e : IllegalReference} :
    Config.ofOutline outline = .error e ↔
      outline.texts.find? (fun text => Reference.parse? text = none) = some e.text := by
  obtain ⟨illegal⟩ := e
  rw [← fault?_eq_some_iff, Config.fault?_ofOutline]
  induction outline.texts with
  | nil => simp
  | cons text texts ih =>
    rw [List.findSome?_cons, List.find?_cons, Reference.fault?_parse]
    by_cases hnone : Reference.parse? text = none
    · simp [hnone]
    · simpa [hnone] using ih

theorem Config.ofOutline_eq_error_iff_first {e : IllegalReference} :
    Config.ofOutline outline = .error e ↔ ∃ before after,
      outline.texts = before ++ e.text :: after ∧
        (∀ text ∈ before, ∃ r, Reference.parse text = .ok r) ∧
        Reference.parse e.text = .error e := by
  have hlegal : ∀ text, ¬ Reference.parse? text = none ↔ ∃ r, Reference.parse text = .ok r :=
    fun text => by simp [Reference.parse_eq_ok_iff, Option.ne_none_iff_exists']
  simp only [ofOutline_eq_error_iff, List.find?_eq_some_iff_append, decide_eq_true_eq,
    Bool.not_eq_true', decide_eq_false_iff_not, hlegal, Reference.parse_eq_error_iff, and_true]
  constructor
  · rintro ⟨hnone, before, after, hsplit, hbefore⟩
    exact ⟨before, after, hsplit, hbefore, hnone⟩
  · rintro ⟨before, after, hsplit, hbefore, hnone⟩
    exact ⟨hnone, before, after, hsplit, hbefore⟩

theorem Config.exists_ofOutline_eq_ok_iff :
    (∃ c, Config.ofOutline outline = .ok c) ↔
      ∀ text ∈ outline.texts, ∃ r, Reference.parse text = .ok r := by
  simp only [exists_eq_ok_iff, fault?_ofOutline, List.findSome?_eq_none_iff]

end Failure
end TypeGraph
