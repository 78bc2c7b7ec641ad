import TypeGraph.Name
import TypeGraph.Text
import TypeGraph.Proofs.RecordOrder

/-! What a name is not: its characters are not blank, and as a key it is no index. -/

namespace TypeGraph

variable {c : Char} {cs : List Char} {s : String}

theorem isNameChar_iff : isNameChar c ↔ isNameStart c ∨ c.isDigit := by
  simp only [isNameChar, isNameStart, Char.isAlphanum, Bool.or_eq_true]
  tauto

theorem toNat_of_isNameStart (h : isNameStart c) :
    (65 ≤ c.toNat ∧ c.toNat ≤ 90) ∨ (97 ≤ c.toNat ∧ c.toNat ≤ 122) ∨ c.toNat = 95 := by
  change decide (65 ≤ c.val ∧ c.val ≤ 90) || (97 ≤ c.val && c.val ≤ 122) || c == '_' at h
  simp only [Bool.or_eq_true, Bool.and_eq_true, decide_eq_true_eq, beq_iff_eq,
    UInt32.le_iff_toNat_le] at h
  rcases h with (h | h) | rfl
  · exact .inl h
  · exact .inr (.inl h)
  · exact .inr (.inr rfl)

theorem not_isDigit_of_isNameStart (h : isNameStart c) : ¬ c.isDigit := by
  intro hd
  have hdigit : 48 ≤ c.toNat ∧ c.toNat ≤ 57 := Char.isDigit_iff_toNat.mp hd
  have hstart := toNat_of_isNameStart h
  omega

theorem isBlank_of_isNameChar (h : isNameChar c) : Text.isBlank c = false := by
  have hrange : (65 ≤ c.toNat ∧ c.toNat ≤ 90) ∨ (97 ≤ c.toNat ∧ c.toNat ≤ 122) ∨
      c.toNat = 95 ∨ (48 ≤ c.toNat ∧ c.toNat ≤ 57) := by
    rcases isNameChar_iff.mp h with hs | hd
    · have := toNat_of_isNameStart hs
      tauto
    · exact .inr (.inr (.inr (Char.isDigit_iff_toNat.mp hd)))
  simp only [Text.isBlank, Bool.or_eq_false_iff, Bool.and_eq_false_iff, decide_eq_false_iff_not,
    beq_eq_false_iff_ne]
  omega

theorem IsName.isNameChar (h : IsName cs) : ∀ c ∈ cs, isNameChar c := by
  cases cs with
  | nil => exact absurd h id
  | cons c cs =>
    rw [List.forall_mem_cons]
    exact ⟨isNameChar_iff.mpr (.inl h.1), List.all_eq_true.mp h.2⟩

theorem IsName.not_isIndex (h : IsName s.toList) : ¬ Table.IsIndex s := by
  rintro ⟨i, -, rfl⟩
  rw [Nat.toString_eq_repr, Nat.toList_repr] at h
  cases hdigits : Nat.toDigits 10 i with
  | nil => exact Nat.toDigits_ne_nil hdigits
  | cons d ds =>
    have hd : d ∈ Nat.toDigits 10 i := hdigits ▸ List.mem_cons_self ..
    rw [hdigits] at h
    exact not_isDigit_of_isNameStart h.1
      (Nat.isDigit_of_mem_toDigits (by decide) (by decide) hd)

end TypeGraph
