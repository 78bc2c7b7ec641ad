import TypeGraph.Table.IndexFirst
import TypeGraph.Proofs.Lookup
import Mathlib.Data.List.TakeWhile

/-! The order of the keys that a list of pairs is written under, in a table and in a record. In a
record the keys that spell a small number in decimal come first. -/

namespace TypeGraph

namespace Text

variable {digits : List Char}

theorem digitsValue_toDigits (n : Nat) : digitsValue (Nat.toDigits 10 n) = n :=
  Nat.ofDigitChars_ten_toDigits

theorem digitsValue_concat (digits : List Char) (d : Char) :
    digitsValue (digits ++ [d]) = 10 * digitsValue digits + (d.toNat - '0'.toNat) := by
  simp only [digitsValue, List.foldl_append, List.foldl_cons, List.foldl_nil]

theorem head_toDigits_ne_zero {n : Nat} (hn : 0 < n) : (Nat.toDigits 10 n).head? ≠ some '0' := by
  induction n using Nat.strongRecOn with
  | ind n ih =>
    rw [Nat.toDigits_eq_if (by decide)]
    split
    · simp [Nat.ne_of_gt hn]
    · have hquot := ih (n / 10) (by omega) (by omega)
      rw [List.head?_append]
      cases hhead : (Nat.toDigits 10 (n / 10)).head? with
      | none => exact absurd (List.head?_eq_none_iff.mp hhead) Nat.toDigits_ne_nil
      | some d => rwa [hhead] at hquot

theorem isPlain_toDigits (n : Nat) : isPlain (Nat.toDigits 10 n) = true := by
  rcases Nat.eq_zero_or_pos n with rfl | hn
  · decide
  · simp [isPlain, head_toDigits_ne_zero hn]

theorem digit_lt_ten {d : Char} (hd : d.isDigit) : d.toNat - '0'.toNat < 10 := by
  have hrange : 48 ≤ d.toNat ∧ d.toNat ≤ 57 := Char.isDigit_iff_toNat.mp hd
  change d.toNat - 48 < 10
  omega

theorem digitChar_digit {d : Char} (hd : d.isDigit) : Nat.digitChar (d.toNat - '0'.toNat) = d := by
  have hrange : 48 ≤ d.toNat ∧ d.toNat ≤ 57 := Char.isDigit_iff_toNat.mp hd
  apply Char.toNat_inj.mp
  rw [Nat.toNat_digitChar_of_lt_ten (digit_lt_ten hd)]
  change 48 + (d.toNat - 48) = d.toNat
  omega

theorem toDigits_digitsValue (hd : ∀ d ∈ digits, d.isDigit) (hne : digits ≠ [])
    (hp : isPlain digits = true) : Nat.toDigits 10 (digitsValue digits) = digits := by
  induction digits using List.reverseRecOn with
  | nil => exact absurd rfl hne
  | append_singleton ds d ih =>
    have hlast : d.isDigit := hd d (by simp)
    have hdigit := Nat.toDigits_of_lt_base (digit_lt_ten hlast)
    rw [digitChar_digit hlast] at hdigit
    rw [digitsValue_concat]
    by_cases hds : ds = []
    · subst hds
      simpa [digitsValue] using hdigit
    · have hhead : ds.head? ≠ some '0' := by
        intro he
        simp [isPlain, List.head?_append, he] at hp
        exact hds hp
      have hinit := ih (fun d hm => hd d (by simp [hm])) hds (by simp [isPlain, hhead])
      have hpos : 0 < digitsValue ds := by
        refine Nat.pos_of_ne_zero fun h0 => hhead ?_
        rw [← hinit, h0, Nat.toDigits_zero, List.head?_cons]
      rw [← Nat.toDigits_append_toDigits (by decide) hpos (digit_lt_ten hlast), hinit, hdigit]

theorem takeDigits?_eq_some_iff {cs : List Char} :
    takeDigits? cs = some (digits, []) ↔ cs = digits ∧ cs ≠ [] ∧ ∀ d ∈ cs, d.isDigit = true := by
  unfold takeDigits?
  by_cases hd : ∀ d ∈ cs, d.isDigit = true
  · have htake : cs.takeWhile Char.isDigit = cs := List.takeWhile_eq_self_iff.mpr hd
    have hdrop : cs.dropWhile Char.isDigit = [] := List.dropWhile_eq_nil_iff.mpr hd
    by_cases hcs : cs = []
    · simp [hcs]
    · simpa [htake, hdrop, hcs] using fun _ => hd
  · have hdrop : cs.dropWhile Char.isDigit ≠ [] := mt List.dropWhile_eq_nil_iff.mp hd
    simp only [hd, and_false, iff_false]
    split <;> simp [hdrop]

theorem takeWhole?_eq_some_iff {cs : List Char} :
    takeWhole? cs = some (digits, []) ↔ cs = digits ∧ ∃ n, digits = Nat.toDigits 10 n := by
  have hplain : takeWhole? cs = some (digits, []) ↔
      takeDigits? cs = some (digits, []) ∧ isPlain digits = true := by
    unfold takeWhole?
    rcases takeDigits? cs with _ | ⟨ds, rest⟩
    · simp
    · rw [Option.ite_none_right_eq_some, and_comm]
      refine and_congr_right fun he => ?_
      rw [(Prod.mk.inj (Option.some.inj he)).1]
  rw [hplain, takeDigits?_eq_some_iff]
  constructor
  · rintro ⟨⟨rfl, hne, hd⟩, hp⟩
    exact ⟨rfl, _, (toDigits_digitsValue hd hne hp).symm⟩
  · rintro ⟨rfl, n, rfl⟩
    exact ⟨⟨rfl, Nat.toDigits_ne_nil, fun d hm =>
      Nat.isDigit_of_mem_toDigits (by decide) (by decide) hm⟩, isPlain_toDigits n⟩

end Text

namespace Table

section Sorting

variable {κ α : Type} {index? : κ → Option Nat} {R : κ → κ → Prop} {es : List (κ × α)}

theorem pairwise_indexed (hn : (es.map Prod.fst).Nodup)
    (h : ∀ k l i j, index? k = some i → index? l = some j → k ≠ l → i ≤ j → R k l) :
    (((es.filter fun e => (index? e.1).isSome).mergeSort fun a b =>
      (index? a.1).getD 0 ≤ (index? b.1).getD 0).map Prod.fst).Pairwise R := by
  have hsorted : ((es.filter fun e => (index? e.1).isSome).mergeSort fun a b =>
      (index? a.1).getD 0 ≤ (index? b.1).getD 0).Pairwise fun a b =>
        decide ((index? a.1).getD 0 ≤ (index? b.1).getD 0) = true :=
    List.pairwise_mergeSort
      (fun a b c hab hbc => by
        simp only [decide_eq_true_eq] at hab hbc ⊢
        exact Nat.le_trans hab hbc)
      (fun a b => by
        simp only [Bool.or_eq_true, decide_eq_true_eq]
        exact Nat.le_total _ _) _
  have hne : (((es.filter fun e => (index? e.1).isSome).mergeSort fun a b =>
      (index? a.1).getD 0 ≤ (index? b.1).getD 0).map Prod.fst).Nodup :=
    ((List.mergeSort_perm _ _).map Prod.fst).nodup_iff.mpr
      (hn.sublist (List.filter_sublist.map Prod.fst))
  rw [List.Nodup, List.pairwise_map] at hne
  rw [List.pairwise_map]
  refine (hsorted.and hne).imp_of_mem ?_
  rintro a b ha hb ⟨hle, hab⟩
  obtain ⟨i, hi⟩ := Option.isSome_iff_exists.mp (List.mem_filter.mp (List.mem_mergeSort.mp ha)).2
  obtain ⟨j, hj⟩ := Option.isSome_iff_exists.mp (List.mem_filter.mp (List.mem_mergeSort.mp hb)).2
  rw [hi, hj, Option.getD_some, Option.getD_some, decide_eq_true_eq] at hle
  exact h _ _ i j hi hj hab hle

theorem pairwise_sortEntries (hn : (es.map Prod.fst).Nodup)
    (hindices : ∀ k l i j, index? k = some i → index? l = some j → k ≠ l → i ≤ j → R k l)
    (hfirst : ∀ k l i, index? k = some i → index? l = none → R k l)
    (hothers : ∀ k l, index? k = none → index? l = none →
      [k, l].Sublist (es.map Prod.fst) → R k l) :
    ((sortEntries index? es).map Prod.fst).Pairwise R := by
  have hnone : ∀ k ∈ (es.filter fun e => !(index? e.1).isSome).map Prod.fst, index? k = none := by
    intro k hk
    obtain ⟨e, he, rfl⟩ := List.mem_map.mp hk
    simpa using (List.mem_filter.mp he).2
  rw [sortEntries, List.map_append, List.pairwise_append]
  refine ⟨pairwise_indexed hn hindices, ?_, ?_⟩
  · rw [List.pairwise_iff_forall_sublist]
    intro k l hsub
    exact hothers k l (hnone k (hsub.mem (by simp))) (hnone l (hsub.mem (by simp)))
      (hsub.trans (List.filter_sublist.map Prod.fst))
  · intro k hk l hl
    obtain ⟨e, he, rfl⟩ := List.mem_map.mp hk
    obtain ⟨i, hi⟩ := Option.isSome_iff_exists.mp (List.mem_filter.mp (List.mem_mergeSort.mp he)).2
    exact hfirst _ l i hi (hnone l hl)

end Sorting

section Records

open Text

variable {α : Type} {k l : String} {pairs : List (String × α)} {i : Nat}

theorem index?_eq_some_iff : index? k.toList = some i ↔ i < indexLimit ∧ k = toString i := by
  have hspell : k = toString i ↔ k.toList = Nat.toDigits 10 i := by
    rw [Nat.toString_eq_repr, ← String.toList_inj, Nat.toList_repr]
  rw [hspell]
  constructor
  · intro h
    unfold index? at h
    split at h
    · next digits hw =>
      obtain ⟨hk, n, rfl⟩ := takeWhole?_eq_some_iff.mp hw
      simp only [digitsValue_toDigits, Option.ite_none_right_eq_some, Option.some.injEq] at h
      exact h.2 ▸ ⟨h.1, hk⟩
    · cases h
  · rintro ⟨hi, hk⟩
    rw [index?, takeWhole?_eq_some_iff.mpr ⟨hk, i, rfl⟩]
    simp only [digitsValue_toDigits, if_pos hi]

def IsIndex (k : String) : Prop := ∃ i < indexLimit, k = toString i

theorem index?_eq_none_iff : index? k.toList = none ↔ ¬ IsIndex k := by
  simp only [Option.eq_none_iff_forall_ne_some, ne_eq, index?_eq_some_iff, IsIndex, not_exists]

def GivenOrder (names : List String) (k l : String) : Prop := [k, l].Sublist names.eraseDups

/-- One key comes before another in a record that was written under some names. -/
inductive RecordOrder (names : List String) : String → String → Prop where
  | indices (i j : Nat) (lt : i < j) (small : j < indexLimit) :
      RecordOrder names (toString i) (toString j)
  | indexFirst (k l : String) (index : IsIndex k) (other : ¬ IsIndex l) : RecordOrder names k l
  | others (k l : String) (hk : ¬ IsIndex k) (hl : ¬ IsIndex l) (given : GivenOrder names k l) :
      RecordOrder names k l

theorem GivenOrder.asymm {names : List String} (h : GivenOrder names k l) :
    ¬ GivenOrder names l k := by
  -- The names are the keys of a table, where each has a slot of its own.
  have hkeys : (ofList (names.map (·, ()))).keys = names.eraseDups := by
    rw [keys_ofList, List.map_map]
    exact congrArg List.eraseDups (List.map_id names)
  have hslots := pairwise_keys (ofList (names.map (·, ())))
  rw [hkeys, List.pairwise_iff_forall_sublist] at hslots
  exact fun h' => (hslots h).asymm (hslots h')

theorem toString_inj {i j : Nat} (h : toString i = toString j) : i = j := by
  have hdigits := congrArg String.toList h
  rw [Nat.toString_eq_repr, Nat.toString_eq_repr, Nat.toList_repr, Nat.toList_repr] at hdigits
  rw [← digitsValue_toDigits i, hdigits, digitsValue_toDigits]

theorem RecordOrder.split {names : List String} (h : RecordOrder names k l) :
    (∃ i j : Nat, i < j ∧ k = toString i ∧ l = toString j) ∧ IsIndex k ∧ IsIndex l ∨
      IsIndex k ∧ ¬ IsIndex l ∨ ¬ IsIndex k ∧ ¬ IsIndex l ∧ GivenOrder names k l := by
  cases h with
  | indices i j lt small =>
    exact .inl ⟨⟨i, j, lt, rfl, rfl⟩, ⟨i, Nat.lt_trans lt small, rfl⟩, ⟨j, small, rfl⟩⟩
  | indexFirst _ _ index other => exact .inr (.inl ⟨index, other⟩)
  | others _ _ hk hl given => exact .inr (.inr ⟨hk, hl, given⟩)

theorem RecordOrder.asymm {names : List String} (h : RecordOrder names k l) :
    ¬ RecordOrder names l k := by
  intro h'
  rcases h.split with ⟨⟨i, j, hij, rfl, rfl⟩, hk, hl⟩ | ⟨hk, hl⟩ | ⟨hk, hl, hkl⟩ <;>
    rcases h'.split with ⟨⟨j', i', hji, hj, hi⟩, hl', hk'⟩ | ⟨hl', hk'⟩ | ⟨hl', hk', hlk⟩ <;>
      try contradiction
  · have hsame : j = j' ∧ i = i' := ⟨toString_inj hj, toString_inj hi⟩
    omega
  · exact hkl.asymm hlk

@[simp]
theorem mem_ofList_iff : k ∈ ofList pairs ↔ k ∈ pairs.map Prod.fst := by
  rw [← List.mem_eraseDups, ← keys_ofList]
  rfl

theorem pairwise_keys_ofList (pairs : List (String × α)) :
    (ofList pairs).keys.Pairwise (GivenOrder (pairs.map Prod.fst)) := by
  rw [keys_ofList, List.pairwise_iff_forall_sublist]
  exact fun hsub => hsub

theorem perm_entries_ofRecord (pairs : List (String × α)) :
    (ofRecord pairs).entries.Perm (ofList pairs).entries :=
  sortEntries_perm (fun key : String => index? key.toList) (ofList pairs).entries

@[simp]
theorem mem_ofRecord_iff : k ∈ ofRecord pairs ↔ k ∈ pairs.map Prod.fst := by
  rw [← mem_ofList_iff]
  exact ((perm_entries_ofRecord pairs).map Prod.fst).mem_iff

theorem pairwise_keys_ofRecord (pairs : List (String × α)) :
    (ofRecord pairs).keys.Pairwise (RecordOrder (pairs.map Prod.fst)) := by
  have hsorted : (ofRecord pairs).keys =
      (sortEntries (fun key => index? key.toList) (ofList pairs).entries).map Prod.fst := rfl
  rw [hsorted]
  refine pairwise_sortEntries (ofList pairs).nodup_keys ?_ ?_ ?_
  · intro k l i j hk hl hne hle
    obtain ⟨-, rfl⟩ := index?_eq_some_iff.mp hk
    obtain ⟨hj, rfl⟩ := index?_eq_some_iff.mp hl
    refine .indices i j (Nat.lt_of_le_of_ne hle ?_) hj
    rintro rfl
    exact hne rfl
  · intro k l i hk hl
    obtain ⟨hi, hspell⟩ := index?_eq_some_iff.mp hk
    exact .indexFirst k l ⟨i, hi, hspell⟩ (index?_eq_none_iff.mp hl)
  · intro k l hk hl hsub
    have hgiven : GivenOrder (pairs.map Prod.fst) k l :=
      List.pairwise_iff_forall_sublist.mp (pairwise_keys_ofList pairs) hsub
    exact .others k l (index?_eq_none_iff.mp hk) (index?_eq_none_iff.mp hl) hgiven

end Records

end Table
end TypeGraph
