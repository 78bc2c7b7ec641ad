import TypeGraph.Proofs.Place
import TypeGraph.Proofs.Renaming.Roots
import TypeGraph.Proofs.Schema.Outline

/-! What becomes of every type of a schema: its configuration holds it, a line tells that it is left
out, or it is skipped. So every name that the configuration mentions is accounted for. -/

namespace TypeGraph

theorem Outline.Describes.exists_of_refers {R : String → Reference → Prop} {d : Outline}
    {c : Config} {name : String} (h : d.Describes R c) (hr : c.Refers name) :
    ∃ text r, R text r ∧ r.target = name := by
  obtain ⟨p, r, hp, rfl⟩ := hr
  obtain ⟨field, hfield, harg⟩ := Option.bind_eq_some_iff.mp hp
  obtain ⟨fields, htype, hname⟩ := Option.bind_eq_some_iff.mp hfield
  obtain ⟨types, -, -, hfields⟩ := h.types.exists_of_mem (Table.get?_eq_some_iff.mp htype)
  obtain ⟨names, -, -, hd⟩ := hfields.exists_of_mem (Table.get?_eq_some_iff.mp hname)
  cases hkind : p.arg with
  | none =>
    rw [hkind] at harg
    obtain rfl := Option.some.inj harg
    exact ⟨_, _, hd.type, rfl⟩
  | some arg =>
    rw [hkind] at harg
    obtain ⟨args, -, -, ha⟩ := hd.args.exists_of_mem (Table.get?_eq_some_iff.mp harg)
    exact ⟨_, _, ha, rfl⟩

def Definition.kindName : Definition → String
  | object _ => "object"
  | interface _ => "interface"
  | input _ => "input"
  | enum => "enum"
  | union => "union"
  | scalar => "scalar"

namespace Schema

def Skips (n : Name) (d : Definition) : Prop :=
  n.text ∈ introspectionTypes ∨ (d = .scalar ∧ n.text ∈ specifiedScalars)

instance (n : Name) (d : Definition) : Decidable (Skips n d) :=
  inferInstanceAs (Decidable (_ ∨ _))

def told (s : Schema) : List (Name × Definition) :=
  s.types.entries.filter fun e => ¬ e.2.hasFields ∧ ¬ Skips e.1 e.2

def leftOutLine (n : Name) (d : Definition) : String :=
  noticeLine ("The " ++ d.kindName ++ " \"" ++ n.text ++
    "\" is not part of the configuration graph, skipped")

variable {s : Schema} {n n' : Name} {d d' : Definition}

theorem leftOutLine_inj (h : leftOutLine n d = leftOutLine n' d') : n = n' := by
  have hspace : ∀ d : Definition, ∀ c ∈ d.kindName.toList, (c != ' ') = true := by
    intro d
    cases d <;> simp [Definition.kindName]
  have hquote : " \"".toList = [' ', '"'] := rfl
  have hlist := congrArg String.toList h
  simp only [leftOutLine, noticeLine, String.toList_append, List.append_assoc,
    List.append_cancel_left_eq, hquote, List.cons_append, List.nil_append] at hlist
  -- No kind has a blank in it, so both end at the first one.
  obtain ⟨-, hrest⟩ := Text.append_inj_of_stops (hspace d) (hspace d')
    (Text.stops_cons (by decide)) (Text.stops_cons (by decide)) hlist
  simp only [List.cons.injEq, List.append_cancel_right_eq, true_and] at hrest
  exact Name.text_inj (String.toList_inj.mp hrest)

theorem mem_map_filter_iff {α : Type} {p : Name → Definition → Prop}
    [∀ n d, Decidable (p n d)] {f : Name → Definition → α}
    (hf : ∀ n d n' d', f n d = f n' d' → n = n') (hm : s.types.get? n = some d) :
    f n d ∈ (s.types.entries.filter fun e => p e.1 e.2).map (fun e => f e.1 e.2) ↔ p n d := by
  have hentry := Table.get?_eq_some_iff.mp hm
  rw [List.mem_map]
  constructor
  · rintro ⟨⟨n', d'⟩, he, hname⟩
    obtain rfl := hf n' d' n d hname
    obtain ⟨he, hp⟩ := List.mem_filter.mp he
    have hd : some d' = some d := (Table.get?_eq_some_iff.mpr he).symm.trans hm
    rw [Option.some.inj hd] at hp
    exact of_decide_eq_true hp
  · intro hp
    exact ⟨(n, d), List.mem_filter.mpr ⟨hentry, decide_eq_true hp⟩, rfl⟩

theorem mem_types_flatten_iff (hm : s.types.get? n = some d) :
    n.text ∈ s.flatten.types ↔ Holds n d := by
  rw [mem_types_flatten, held]
  exact mem_map_filter_iff (p := Holds) (f := fun n _ => n.text) (fun _ _ _ _ => Name.text_inj) hm

def omission? (n : Name) (d : Definition) : Option Omission :=
  if isIntrospectionType n || isSpecifiedScalar n d then none
  else d.omittedKind?.map fun kind => ⟨kind, n⟩

theorem skips_iff : isIntrospectionType n || isSpecifiedScalar n d ↔ Skips n d := by
  cases d <;> simp [isIntrospectionType, isSpecifiedScalar, Skips]

theorem omission?_eq (n : Name) (d : Definition) :
    omission? n d = if ¬ d.hasFields ∧ ¬ Skips n d then some ⟨d.kindName, n⟩ else none := by
  have hkind : d.omittedKind? = if d.hasFields then none else some d.kindName := by
    cases d <;> rfl
  rw [omission?, hkind]
  by_cases hs : Skips n d
  · rw [if_pos (skips_iff.mpr hs), if_neg fun h => h.2 hs]
  · rw [if_neg fun h => hs (skips_iff.mp h)]
    cases hf : d.hasFields <;> simp [hs]

theorem notices_eq (s : Schema) : s.notices = s.told.map fun e => leftOutLine e.1 e.2 := by
  have homissions : s.omissions = s.types.entries.filterMap fun e => omission? e.1 e.2 := rfl
  have hline : ∀ e : Name × Definition,
      noticeLine (Omission.mk e.2.kindName e.1).message = leftOutLine e.1 e.2 := fun _ => rfl
  rw [notices, homissions, List.map_filterMap, told, ← List.filterMap_eq_map,
    List.filterMap_filter]
  simp only [omission?_eq, apply_ite (Option.map _), Option.map_some, Option.map_none, hline,
    decide_eq_true_eq, Function.comp_apply]

theorem mem_notices_iff (hm : s.types.get? n = some d) :
    leftOutLine n d ∈ s.notices ↔ ¬ d.hasFields ∧ ¬ Skips n d := by
  rw [notices_eq, told]
  exact mem_map_filter_iff (p := fun n d => ¬ d.hasFields ∧ ¬ Skips n d) (f := leftOutLine)
    (fun _ _ _ _ => leftOutLine_inj) hm

structure Closed (s : Schema) : Prop where
  types : ∀ e ∈ s.types.entries, ∀ t ∈ e.2.typeExprs, t.name ∈ s.types
  roots : ∀ n ∈ s.roots.names, n ∈ s.types

theorem Closed.mem_of_mentions (hc : s.Closed) {name : String} (hm : s.flatten.Mentions name) :
    ∃ n ∈ s.types, n.text = name := by
  rcases hm with hr | hr
  · obtain ⟨text, r, ⟨t, ht, -, rfl⟩, hname⟩ := s.describes_outline.exists_of_refers hr
    obtain ⟨e, he, ht⟩ := List.mem_flatMap.mp ht
    exact ⟨t.name, hc.types e (List.mem_of_mem_filter he) t ht, hname⟩
  · have hroots : s.flatten.roots.names = s.roots.names.map Name.text := Roots.names_map _ _
    rw [hroots] at hr
    obtain ⟨n, hn, rfl⟩ := List.mem_map.mp hr
    exact ⟨n, hc.roots n hn, rfl⟩

def ExactlyOne (p q r : Prop) : Prop := (p ∧ ¬ q ∧ ¬ r) ∨ (¬ p ∧ q ∧ ¬ r) ∨ (¬ p ∧ ¬ q ∧ r)

theorem exactlyOne_holds (n : Name) (d : Definition) :
    ExactlyOne (Holds n d) (¬ d.hasFields ∧ ¬ Skips n d) (Skips n d) := by
  by_cases hi : n.text ∈ introspectionTypes
  · simp [ExactlyOne, Holds, Skips, hi]
  · by_cases hs : n.text ∈ specifiedScalars <;> cases d <;>
      simp [ExactlyOne, Holds, Skips, hi, hs, Definition.hasFields]

/-- What a loaded configuration makes of the types of a schema. Those that it holds and those that
are told to be left out stand in the order of the schema. -/
structure Accounts (s : Schema) (loaded : Loaded) : Prop where
  held : loaded.config.types.keys = s.held.map fun e => e.1.text
  told : loaded.notices = s.told.map fun e => leftOutLine e.1 e.2
  once : ∀ n d, s.types.get? n = some d →
    ExactlyOne (n.text ∈ loaded.config.types) (leftOutLine n d ∈ loaded.notices) (Skips n d)
  mentions : ∀ name, loaded.config.Mentions name →
    name ∈ loaded.config.types ∨ name ∈ specifiedScalars ∨ name ∈ introspectionTypes ∨
      ∃ n d, n.text = name ∧ leftOutLine n d ∈ loaded.notices

theorem exactlyOne_of_get? (hm : s.types.get? n = some d) :
    ExactlyOne (n.text ∈ s.flatten.types) (leftOutLine n d ∈ s.notices) (Skips n d) := by
  rw [mem_types_flatten_iff hm, mem_notices_iff hm]
  exact exactlyOne_holds n d

/-- Every type of a closed schema is either held, told to be left out, or skipped, and every name
that the configuration mentions is that of such a type. -/
theorem accounts_ofSchema (hc : s.Closed) : s.Accounts (Loaded.ofSchema s) where
  held := s.keys_flatten
  told := s.notices_eq
  once _ _ := exactlyOne_of_get?
  mentions name hm := by
    obtain ⟨n, hn, rfl⟩ := hc.mem_of_mentions hm
    obtain ⟨d, hd⟩ := Table.mem_iff_exists_get?.mp hn
    rcases exactlyOne_of_get? hd with ⟨hheld, -, -⟩ | ⟨-, htold, -⟩ | ⟨-, -, hskips⟩
    · exact .inl hheld
    · exact .inr (.inr (.inr ⟨n, d, rfl, htold⟩))
    · rcases hskips with hi | ⟨-, hs⟩
      · exact .inr (.inr (.inl hi))
      · exact .inr (.inl hs)

theorem accounts_ofSchema_shelf :
    shelf.Closed ∧ shelf.Accounts (Loaded.ofSchema shelf) ∧
    (Loaded.ofSchema shelf).config.types.keys = ["Node", "Book", "Filter"] ∧
    (Loaded.ofSchema shelf).notices =
      ["[gqlconf] The scalar \"Isbn\" is not part of the configuration graph, skipped",
        "[gqlconf] The enum \"Genre\" is not part of the configuration graph, skipped",
        "[gqlconf] The union \"Item\" is not part of the configuration graph, skipped"] := by
  have hclosed : shelf.Closed := ⟨by decide, by decide⟩
  have haccounts := accounts_ofSchema hclosed
  exact ⟨hclosed, haccounts, haccounts.held.trans (by decide), haccounts.told.trans (by decide)⟩

end Schema
end TypeGraph
