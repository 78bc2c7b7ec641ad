import TypeGraph.Table
import TypeGraph.Text

/-! The key order of a record read from text: keys that spell an index come first, in
ascending order, and the others follow in the order in which they were first written. -/

namespace TypeGraph.Table

variable {κ α : Type}

def sortEntries (index? : κ → Option Nat) (es : List (κ × α)) : List (κ × α) :=
  (es.filter fun e => (index? e.1).isSome).mergeSort
      (fun a b => (index? a.1).getD 0 ≤ (index? b.1).getD 0) ++
    es.filter fun e => !(index? e.1).isSome

theorem sortEntries_perm (index? : κ → Option Nat) (es : List (κ × α)) :
    (sortEntries index? es).Perm es :=
  ((List.mergeSort_perm _ _).append_right _).trans (List.filter_append_perm _ es)

def indexFirst (index? : κ → Option Nat) (t : Table κ α) : Table κ α :=
  ⟨sortEntries index? t.entries,
    ((sortEntries_perm index? t.entries).map Prod.fst).nodup_iff.mpr t.nodup_keys⟩

/-- Indices stop short of the largest 32-bit number. -/
def indexLimit : Nat := 4294967295

def index? (key : List Char) : Option Nat :=
  match Text.takeWhole? key with
  | some (digits, []) =>
    let n := Text.digitsValue digits
    if n < indexLimit then some n else none
  | _ => none

def ofRecord (pairs : List (String × α)) : Table String α :=
  (ofList pairs).indexFirst fun key => index? key.toList

end TypeGraph.Table
