import TypeGraph.Proofs.Reference.Marks

/-! The grammar of references. A text is read as a reference if and only if what is left of it
without the blanks at its ends is spelled as the grammar says. -/

namespace TypeGraph

namespace Text

variable {cs s front back : List Char}

structure Tight (cs : List Char) : Prop where
  head : ∀ c ∈ cs.head?, isBlank c = false
  last : ∀ c ∈ cs.getLast?, isBlank c = false

/-- What is left of a text without the blanks at its ends. -/
structure Stripped (cs s : List Char) : Prop where
  tight : Tight s
  around : ∃ front back, Blanks front ∧ Blanks back ∧ cs = front ++ s ++ back

theorem not_isBlank_of_head?_dropWhile (cs : List Char) :
    ∀ c ∈ (cs.dropWhile isBlank).head?, isBlank c = false := by
  intro c hc
  have hhead := List.head?_dropWhile_not isBlank cs
  rw [Option.mem_def.mp hc] at hhead
  exact hhead

theorem trimRight_append (h : Blanks back) (cs : List Char) :
    trimRight (cs ++ back) = trimRight cs := by
  have hback : ∀ c ∈ back.reverse, isBlank c = true := fun c hc => h c (List.mem_reverse.mp hc)
  unfold trimRight
  rw [List.reverse_append, List.dropWhile_append_of_pos hback]

theorem trimRight_eq_self (h : ∀ c ∈ cs.getLast?, isBlank c = false) : trimRight cs = cs := by
  have hback : trimLeft cs.reverse = cs.reverse := by
    refine trimLeft_eq_self fun c hc => h c ?_
    rwa [List.head?_reverse] at hc
  rw [trimRight, ← trimLeft, hback, List.reverse_reverse]

theorem exists_append_trimRight (cs : List Char) :
    ∃ back, Blanks back ∧ cs = trimRight cs ++ back := by
  have hsplit : cs.reverse.takeWhile isBlank ++ cs.reverse.dropWhile isBlank = cs.reverse :=
    List.takeWhile_append_dropWhile
  refine ⟨(cs.reverse.takeWhile isBlank).reverse, fun c hc => ?_, ?_⟩
  · exact List.mem_takeWhile_imp (List.mem_reverse.mp hc)
  · rw [trimRight, ← List.reverse_append, hsplit, List.reverse_reverse]

theorem stripped_trim (cs : List Char) : Stripped cs (trim cs) := by
  obtain ⟨back, hb, hback⟩ := exists_append_trimRight (trimLeft cs)
  obtain ⟨front, hf, hfront⟩ := exists_append_trimLeft cs
  refine ⟨⟨fun c hc => ?_, fun c hc => ?_⟩, front, back, hf, hb, ?_⟩
  · have hhead : (trimLeft cs).head? = some c := by
      rw [hback, List.head?_append, ← trim, Option.mem_def.mp hc, Option.some_or]
    exact not_isBlank_of_head?_dropWhile cs c hhead
  · rw [trim, trimRight, List.getLast?_reverse] at hc
    exact not_isBlank_of_head?_dropWhile _ c hc
  · rw [trim, List.append_assoc, ← hback, ← hfront]

theorem Stripped.eq_trim (h : Stripped cs s) : s = trim cs := by
  obtain ⟨front, back, hf, hb, rfl⟩ := h.around
  rw [trim, List.append_assoc, trimLeft_append hf]
  cases s with
  | nil =>
    have hnone : trimLeft back = [] := List.dropWhile_eq_nil_iff.mpr hb
    rw [List.nil_append, hnone]
    rfl
  | cons c s =>
    have hhead : ∀ d ∈ (c :: s ++ back).head?, isBlank d = false := h.tight.head
    rw [trimLeft_eq_self hhead, trimRight_append hb, trimRight_eq_self h.tight.last]

theorem Tight.eq_nil_of_blanks_append (h : Tight (front ++ cs)) (hf : Blanks front) :
    front = [] := by
  cases front with
  | nil => rfl
  | cons c front =>
    have hblank := hf c List.mem_cons_self
    rw [h.head c rfl] at hblank
    cases hblank

theorem Tight.eq_nil_of_blanks (h : Tight (cs ++ back)) (hb : Blanks back) : back = [] := by
  cases hlast : back.getLast? with
  | none => exact List.getLast?_eq_none_iff.mp hlast
  | some c =>
    have hend : c ∈ (cs ++ back).getLast? := by
      rw [List.getLast?_append, hlast]
      rfl
    have hblank := hb c (List.mem_of_getLast? hlast)
    rw [h.last c hend] at hblank
    cases hblank

end Text

namespace Reference

open Text

variable {cs s : List Char} {list : Bool} {r : Reference}

/-- The spellings of a reference, without blanks at the ends. The items of a list may be marked,
which makes no difference. -/
inductive Spelling : List Char → Reference → Prop where
  | plain (name : List Char) (hn : IsName name) : Spelling name ⟨String.ofList name, false, false⟩
  | required (name a : List Char) (hn : IsName name) (ha : Blanks a) :
      Spelling (name ++ a ++ ['!']) ⟨String.ofList name, false, true⟩
  | list (a name b c d : List Char) (items required : Bool) (hn : IsName name) (ha : Blanks a)
      (hb : Blanks b) (hc : Blanks c) (hd : Blanks d) :
      Spelling (['['] ++ a ++ name ++ b ++ mark items ++ c ++ [']'] ++ d ++ mark required)
        ⟨String.ofList name, true, required⟩

theorem read?_single {name a : List Char} (required : Bool) (hn : IsName name) (ha : Blanks a) :
    read? (name ++ (a ++ mark required)) = some ⟨String.ofList name, false, required⟩ := by
  have hbody := readBody?_spelled false false required blanks_nil hn ha blanks_nil blanks_nil
  simp only [Marks.spelled_single, List.append_nil, List.nil_append] at hbody
  rw [read?_name hn, hbody]

theorem Spelling.read?_eq_some (h : Spelling s r) : read? s = some r := by
  cases h with
  | plain _ hn =>
    have hread := read?_single false hn blanks_nil
    rwa [List.nil_append, mark, if_neg Bool.false_ne_true, List.append_nil] at hread
  | required name a hn ha =>
    rw [List.append_assoc]
    exact read?_single true hn ha
  | list a name b c d items required hn ha hb hc hd =>
    have hbody := readBody?_spelled true items required ha hn hb hc hd
    rw [Marks.spelled_list] at hbody
    simp only [List.append_assoc, List.cons_append, List.nil_append] at hbody ⊢
    rw [read?, hbody]

theorem spelling_of_readBody?_false (ht : Tight s) (h : readBody? false s = some r) :
    Spelling s r := by
  obtain ⟨front, name, a, b, d, items, required, hf, hn, ha, hb, hd, rfl, rfl⟩ :=
    exists_of_readBody?_eq_some h
  -- Blanks before the name or behind the last mark would stand at an end of the text.
  obtain rfl := ht.eq_nil_of_blanks_append hf
  rw [Marks.spelled_single] at ht ⊢
  simp only [List.nil_append, ← List.append_assoc] at ht ⊢
  obtain rfl := ht.eq_nil_of_blanks hd
  rw [List.append_nil] at ht ⊢
  obtain rfl := ht.eq_nil_of_blanks hb
  rw [List.append_nil] at ht ⊢
  cases required with
  | true => exact .required name a hn ha
  | false =>
    change Tight (name ++ a ++ []) at ht
    change Spelling (name ++ a ++ []) _
    rw [List.append_nil] at ht ⊢
    obtain rfl := ht.eq_nil_of_blanks ha
    rw [List.append_nil]
    exact .plain name hn

theorem spelling_of_readBody?_true (h : readBody? true cs = some r) : Spelling ('[' :: cs) r := by
  obtain ⟨front, name, a, b, d, items, required, hf, hn, ha, hb, hd, rfl, rfl⟩ :=
    exists_of_readBody?_eq_some h
  have hlist := Spelling.list front name a b d items required hn hf ha hb hd
  rw [Marks.spelled_list]
  simpa only [List.append_assoc, List.cons_append, List.nil_append] using hlist

theorem read?_eq_some_iff (ht : Tight s) : read? s = some r ↔ Spelling s r := by
  refine ⟨fun h => ?_, Spelling.read?_eq_some⟩
  unfold read? at h
  split at h
  · exact spelling_of_readBody?_true h
  · exact spelling_of_readBody?_false ht h

theorem parse_eq_ok_iff_spelling {text : String} :
    parse text = .ok r ↔ ∃ s, Stripped text.toList s ∧ Spelling s r := by
  rw [parse_eq_ok_iff, parse?]
  constructor
  · intro h
    have hs := stripped_trim text.toList
    exact ⟨_, hs, (read?_eq_some_iff hs.tight).mp h⟩
  · rintro ⟨s, hs, hr⟩
    rw [← hs.eq_trim]
    exact (read?_eq_some_iff hs.tight).mpr hr

/-- A text is read as a reference if and only if what is left of it without the blanks at its ends
is spelled as the grammar says. Any other text is refused, and quoted with its blanks. -/
theorem parse_by_grammar (text : String) :
    (∀ r, parse text = .ok r ↔ ∃ s, Stripped text.toList s ∧ Spelling s r) ∧
    ∀ e, parse text = .error e ↔
      (¬ ∃ r s, Stripped text.toList s ∧ Spelling s r) ∧ e.text = text ∧
        e.message = "Illegal type reference '" ++ text ++ "'" := by
  refine ⟨fun r => parse_eq_ok_iff_spelling, fun e => ?_⟩
  simp only [← parse_eq_ok_iff_spelling, parse_eq_ok_iff, parse_eq_error_iff,
    ← Option.isSome_iff_exists, Option.not_isSome_iff_eq_none]
  refine and_congr_right fun _ => ⟨?_, ?_⟩
  · rintro rfl
    exact ⟨rfl, rfl⟩
  · rintro ⟨rfl, -⟩
    rfl

/-- No-break space, ideographic space, byte order mark and line separator are blanks. -/
example : parse "\u00A0[ Post !\u3000]\uFEFF!\u2028" = .ok ⟨"Post", true, true⟩ := by decide

example : parse " [[Post]!" = .error ⟨" [[Post]!"⟩ := by decide

end Reference
end TypeGraph
