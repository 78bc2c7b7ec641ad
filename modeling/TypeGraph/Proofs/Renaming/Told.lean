import TypeGraph.Proofs.Renaming.Ledger

/-! What is told about a renaming. Every type that it loses is named once, in one line, and
nothing else is. -/

namespace TypeGraph

def Collision.Tells (x : Collision) (what : String) : Prop :=
  ∃ rest, x.message = "Renaming '" ++ x.old ++ "' to '" ++ x.new ++ "' replaces " ++ what ++ rest

theorem Collision.tells_existing {x : Collision} (h : x.replaced = x.new) :
    x.Tells ("the existing type '" ++ x.new ++ "'") := by
  refine ⟨", references to '" ++ x.new ++ "' now point at the former '" ++ x.old ++ "'", ?_⟩
  have hsplit : "' replaces the existing type '" = "' replaces " ++ "the existing type '" := rfl
  have hrest : "', references to '" = "'" ++ ", references to '" := rfl
  rw [message, if_pos h, hsplit, hrest]
  simp only [String.append_assoc]

theorem Collision.tells_renamed {x : Collision} (h : x.replaced ≠ x.new) :
    x.Tells ("'" ++ x.replaced ++ "', renamed to the same name") := by
  refine ⟨", references to both now point at the former '" ++ x.old ++ "'", ?_⟩
  have hsplit : "' replaces '" = "' replaces " ++ "'" := rfl
  have hrest : "', renamed to the same name, references to both now point at the former '" =
    "', renamed to the same name" ++ ", references to both now point at the former '" := rfl
  rw [message, if_neg h, hsplit, hrest]
  simp only [String.append_assoc]

namespace Renaming

open Arrangement

variable {r : Renaming} {c : Config} {out : Renamed}

/-- What the collisions of a renaming tell about the types of a configuration. -/
structure Told (r : Renaming) (c : Config) (out : Renamed) : Prop where
  balance : out.notices.length + out.config.types.size = c.types.size
  once : (out.collisions.map Collision.replaced).Nodup
  lost : ∀ old, (∃ x ∈ out.collisions, x.replaced = old) ↔
    old ∈ c.types ∧ ¬ ∃ name ∈ out.config.types, r.EndsUnder old name
  existing : ∀ x ∈ out.collisions, x.replaced = x.new →
    x.Tells ("the existing type '" ++ x.new ++ "'")
  renamed : ∀ x ∈ out.collisions, x.replaced ≠ x.new →
    x.Tells ("'" ++ x.replaced ++ "', renamed to the same name") ∧
      ∃ before after, r.entries = before ++ (x.old, x.new) :: after ∧
        (x.replaced, x.new) ∈ before
  last : ∀ name x, (out.collisions.filter fun y => y.new = name).getLast? = some x →
    r.EndsUnder x.old name ∧ ∃ fields fields', c.type? x.old = some fields ∧
      out.config.type? name = some fields' ∧ fields.Retargeted r.resolve fields'
  quiet : out.notices = [] ↔
    ∀ old ∈ c.types, ∀ old' ∈ c.types, r.resolve old = r.resolve old' → old = old'

theorem notices_eq_nil_iff : out.notices = [] ↔ out.collisions = [] := List.map_eq_nil_iff

theorem exists_pair_of_replaced (h : r.Applies c) {x : Collision}
    (hx : x ∈ (r.rename c).collisions) (hn : x.replaced ≠ x.new) :
    ∃ before after, r.entries = before ++ (x.old, x.new) :: after ∧
      (x.replaced, x.new) ∈ before := by
  obtain ⟨before, after, hsplit, hreplaced⟩ := exists_of_mem_collisions h.fst_mem hx
  refine ⟨before, after, hsplit, ?_⟩
  cases hlast : lastOld? before x.new with
  | none =>
    rw [bearer, hlast] at hreplaced
    exact absurd hreplaced hn
  | some old =>
    rw [bearer, hlast, Option.getD_some] at hreplaced
    exact hreplaced ▸ mem_of_lastOld? hlast

theorem told_rename (h : r.Applies c) : Told r c (r.rename c) where
  balance := by
    rw [Renamed.notices, List.length_map]
    exact length_collisions_add_size h
  once := nodup_replaced h
  lost old := by
    rw [← mem_replaced_iff h, replaced, List.mem_map]
    rfl
  existing x _ hn := x.tells_existing hn
  renamed x hx hn := ⟨x.tells_renamed hn, exists_pair_of_replaced h hx hn⟩
  last name x hx := by
    have hlast := lastOld?_of_last_collision h.fst_mem hx
    have hpair := mem_of_lastOld? hlast
    have hm : name ∈ (r.rename c).config.types :=
      (mem_rename_iff h).mpr ⟨x.old, h.fst_mem _ hpair, resolve_of_mem hpair⟩
    have hends := endsUnder_bearer h hm
    have hold : bearer r.entries name = x.old := by rw [bearer, hlast, Option.getD_some]
    obtain ⟨fields, hf, hf'⟩ := type?_rename_of_mem h hm
    rw [hold] at hends hf
    exact ⟨hends, fields, _, hf, hf', fields.retargeted_mapTargets _⟩
  quiet := by
    rw [notices_eq_nil_iff]
    exact ⟨fun hq _ ho _ ho' he => resolve_inj h hq ho ho' he, collisions_eq_nil_of_inj h⟩

/-- The lines of a renaming that goes through account for all types of the configuration; one
that fails has no line. -/
theorem losses_told (r : Renaming) (c : Config) :
    (∀ out, r.apply c = .success out →
      noticesOf (r.apply c) = out.collisions.map (fun x => noticeLine x.message) ∧
        Told r c out) ∧
    ∀ e, r.apply c = .failure e → noticesOf (r.apply c) = [] := by
  refine ⟨fun out h => ?_, fun e h => ?_⟩
  · rw [h]
    obtain ⟨ha, rfl⟩ := apply_eq_success_iff.mp h
    exact ⟨rfl, told_rename ha⟩
  · rw [h]
    rfl

def pile : List (String × String) := [("A", "C"), ("B", "C")]

theorem losses_told_ring :
    (ofPairs pile).apply ring = .success ((ofPairs pile).rename ring) ∧
    Told (ofPairs pile) ring ((ofPairs pile).rename ring) ∧
    (ofPairs [("A", "B"), ("E", "F")]).apply ring = .failure (.single ⟨"E"⟩) ∧
    noticesOf ((ofPairs [("A", "B"), ("E", "F")]).apply ring) = [] :=
  ⟨by decide, ((losses_told (ofPairs pile) ring).1 _ (by decide)).2, by decide,
    (losses_told (ofPairs [("A", "B"), ("E", "F")]) ring).2 (.single ⟨"E"⟩) (by decide)⟩

end Renaming
end TypeGraph
