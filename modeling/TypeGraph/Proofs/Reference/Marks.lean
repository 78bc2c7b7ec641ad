import TypeGraph.Reference
import TypeGraph.Proofs.Name

/-! The marks of a reference: which of them can be read, wherever blanks are, and which of them make
a reference. So a reference to a name is read back as it was rendered. -/

namespace TypeGraph

namespace Text

section Stops

variable {p : Char → Bool} {as bs cs ds : List Char}

def Stops (p : Char → Bool) (cs : List Char) : Prop := ∀ c ∈ cs.head?, p c = false

theorem stops_cons {c : Char} (h : p c = false) : Stops p (c :: cs) := by
  intro d hd
  rwa [← Option.some.inj hd]

theorem Stops.takeWhile (h : Stops p cs) : cs.takeWhile p = [] := by
  cases cs with
  | nil => rfl
  | cons c cs => rw [List.takeWhile_cons, h c rfl, if_neg Bool.false_ne_true]

theorem Stops.dropWhile (h : Stops p cs) : cs.dropWhile p = cs := by
  cases cs with
  | nil => rfl
  | cons c cs => rw [List.dropWhile_cons, h c rfl, if_neg Bool.false_ne_true]

theorem append_inj_of_stops (ha : ∀ c ∈ as, p c) (hb : ∀ c ∈ bs, p c) (hc : Stops p cs)
    (hd : Stops p ds) (h : as ++ cs = bs ++ ds) : as = bs ∧ cs = ds := by
  have htake := congrArg (List.takeWhile p) h
  rw [List.takeWhile_append_of_pos ha, List.takeWhile_append_of_pos hb, hc.takeWhile,
    hd.takeWhile, List.append_nil, List.append_nil] at htake
  subst htake
  exact ⟨rfl, List.append_cancel_left h⟩

end Stops

section Blanks

variable {cs front : List Char}

def Blanks (cs : List Char) : Prop := ∀ c ∈ cs, isBlank c = true

theorem trimLeft_eq_self (h : Stops isBlank cs) : trimLeft cs = cs := h.dropWhile

theorem trimLeft_append (h : Blanks front) (cs : List Char) :
    trimLeft (front ++ cs) = trimLeft cs := List.dropWhile_append_of_pos h

theorem exists_append_trimLeft (cs : List Char) :
    ∃ front, Blanks front ∧ cs = front ++ trimLeft cs :=
  ⟨cs.takeWhile isBlank, fun _ hc => List.mem_takeWhile_imp hc,
    List.takeWhile_append_dropWhile.symm⟩

theorem trim_eq_self (h : ∀ c ∈ cs, isBlank c = false) : trim cs = cs := by
  have hback : trimLeft cs.reverse = cs.reverse :=
    trimLeft_eq_self fun c hc => h c (List.mem_reverse.mp (List.mem_of_mem_head? hc))
  rw [trim, trimLeft_eq_self fun c hc => h c (List.mem_of_mem_head? hc), trimRight, ← trimLeft,
    hback, List.reverse_reverse]

end Blanks

end Text

namespace Reference

open Text

theorem parse_eq_ok_iff {text : String} {r : Reference} :
    parse text = .ok r ↔ parse? text = some r := by
  unfold parse
  cases parse? text <;> simp

theorem parse_eq_error_iff {text : String} {e : IllegalReference} :
    parse text = .error e ↔ parse? text = none ∧ e = ⟨text⟩ := by
  unfold parse
  cases parse? text <;> simp [eq_comm]

section Optional

variable {c mark : Char} {cs a : List Char}

theorem optional_append (ha : Blanks a) (cs : List Char) :
    optional mark (a ++ cs) = optional mark cs := by
  unfold optional
  rw [trimLeft_append ha]

theorem optional_nil : optional mark [] = (false, []) := rfl

theorem optional_of_blanks (ha : Blanks a) : optional mark a = (false, []) := by
  rw [← List.append_nil a, optional_append ha, optional_nil]

theorem optional_cons (hc : isBlank c = false) (cs : List Char) :
    optional mark (c :: cs) = if c = mark then (true, cs) else (false, c :: cs) := by
  unfold optional
  rw [trimLeft_eq_self (stops_cons hc)]

theorem exists_optional (mark : Char) (cs : List Char) :
    ∃ a, Blanks a ∧
      cs = a ++ ((if (optional mark cs).1 then [mark] else []) ++ (optional mark cs).2) := by
  obtain ⟨a, ha, hcs⟩ := exists_append_trimLeft cs
  refine ⟨a, ha, hcs.trans ?_⟩
  rw [List.append_cancel_left_eq]
  unfold optional
  cases trimLeft cs with
  | nil => rfl
  | cons c rest => by_cases hc : c = mark <;> simp [hc]

end Optional

section Marks

variable {c : Char} {cs a b d : List Char} {list : Bool} {m : Marks}

def mark (present : Bool) : List Char := if present then ['!'] else []

def bracket (present : Bool) : List Char := if present then [']'] else []

def Marks.spelled (m : Marks) (a b d : List Char) : List Char :=
  a ++ (mark m.inner ++ (b ++ (bracket m.closed ++ (d ++ mark m.outer))))

/-- A single mark is the inner one, wherever blanks are. -/
theorem readMarks?_spelled (hm : m.outer = true → m.inner = true ∨ m.closed = true)
    (ha : Blanks a) (hb : Blanks b) (hd : Blanks d) :
    readMarks? (m.spelled a b d) = some m := by
  obtain ⟨inner, closed, outer⟩ := m
  have hmark : isBlank '!' = false := by decide
  have hbracket : isBlank ']' = false := by decide
  cases inner <;> cases closed <;> cases outer <;>
    simp_all [readMarks?, Marks.spelled, mark, bracket, optional_nil, optional_append,
      optional_of_blanks, optional_cons]

theorem exists_of_readMarks?_eq_some (h : readMarks? cs = some m) :
    ∃ a b d, Blanks a ∧ Blanks b ∧ Blanks d ∧ cs = m.spelled a b d := by
  obtain ⟨a, ha, hcs⟩ := exists_optional '!' cs
  obtain ⟨b, hb, hinner⟩ := exists_optional ']' (optional '!' cs).2
  obtain ⟨d, hd, hclosed⟩ := exists_optional '!' (optional ']' (optional '!' cs).2).2
  simp only [readMarks?, Option.ite_none_right_eq_some, Option.some.injEq] at h
  obtain ⟨hend, rfl⟩ := h
  rw [hend, List.append_nil] at hclosed
  rw [hclosed] at hinner
  rw [hinner] at hcs
  exact ⟨a, b, d, ha, hb, hd, hcs⟩

def Marks.of (list items required : Bool) : Marks :=
  if list then ⟨items, true, required⟩ else ⟨required, false, false⟩

/-- Four combinations of marks make a list, and two make another reference. -/
theorem ofMarks?_eq_some_iff {target : String} {r : Reference} :
    ofMarks? target list m = some r ↔
      ∃ items required, m = Marks.of list items required ∧ r = ⟨target, list, required⟩ := by
  obtain ⟨inner, closed, outer⟩ := m
  cases list <;> cases closed <;> cases outer <;> cases inner <;>
    simp [ofMarks?, Marks.of, eq_comm]

@[simp]
theorem Marks.spelled_list (items required : Bool) (a b d : List Char) :
    (Marks.of true items required).spelled a b d =
      a ++ (mark items ++ (b ++ ([']'] ++ (d ++ mark required)))) := rfl

@[simp]
theorem Marks.spelled_single (items required : Bool) (a b d : List Char) :
    (Marks.of false items required).spelled a b d = a ++ (mark required ++ (b ++ d)) := by
  simp [Marks.of, Marks.spelled, mark, bracket]

theorem Marks.of_outer (list items required : Bool)
    (h : (Marks.of list items required).outer = true) :
    (Marks.of list items required).inner = true ∨ (Marks.of list items required).closed = true := by
  cases list with
  | false => cases h
  | true => exact .inr rfl

def IsMark (c : Char) : Prop := c = '!' ∨ c = ']'

instance : DecidablePred IsMark := fun _ => inferInstanceAs (Decidable (_ ∨ _))

theorem IsMark.not_isNameChar (h : IsMark c) : isNameChar c = false := by
  rcases h with rfl | rfl <;> decide

theorem IsMark.not_isBlank (h : IsMark c) : isBlank c = false := by
  rcases h with rfl | rfl <;> decide

theorem isMark_of_mem_mark {present : Bool} : ∀ c ∈ mark present, IsMark c := by
  cases present <;> simp [mark, IsMark]

theorem isMark_of_mem_bracket {present : Bool} : ∀ c ∈ bracket present, IsMark c := by
  cases present <;> simp [bracket, IsMark]

theorem Marks.mem_spelled (hc : c ∈ m.spelled a b d) :
    (c ∈ a ∨ c ∈ b ∨ c ∈ d) ∨ IsMark c := by
  simp only [Marks.spelled, List.mem_append] at hc
  rcases hc with hc | hc | hc | hc | hc | hc
  · exact .inl (.inl hc)
  · exact .inr (isMark_of_mem_mark c hc)
  · exact .inl (.inr (.inl hc))
  · exact .inr (isMark_of_mem_bracket c hc)
  · exact .inl (.inr (.inr hc))
  · exact .inr (isMark_of_mem_mark c hc)

theorem Marks.stops_spelled (ha : Blanks a) (hb : Blanks b) (hd : Blanks d) :
    Stops isNameChar (m.spelled a b d) := by
  intro c hc
  rcases Marks.mem_spelled (List.mem_of_mem_head? hc) with hc | hmark
  · have hblank : isBlank c = true := hc.elim (ha c) fun hc => hc.elim (hb c) (hd c)
    by_contra hname
    rw [isBlank_of_isNameChar (Bool.of_not_eq_false hname)] at hblank
    cases hblank
  · exact hmark.not_isNameChar

end Marks

section Bodies

variable {c : Char} {cs front a b d name rest : List Char} {list : Bool} {r : Reference}

theorem trimLeft_name (hn : IsName name) : trimLeft (name ++ cs) = name ++ cs := by
  cases name with
  | nil => exact absurd hn id
  | cons c name =>
    exact trimLeft_eq_self (stops_cons (isBlank_of_isNameChar (isNameChar_iff.mpr (.inl hn.1))))

theorem readBody?_append (hf : Blanks front) (hn : IsName name) (hr : Stops isNameChar rest) :
    readBody? list (front ++ (name ++ rest)) =
      (readMarks? rest).bind (ofMarks? (String.ofList name) list) := by
  have hbody : trimLeft (front ++ (name ++ rest)) = name ++ rest := by
    rw [trimLeft_append hf, trimLeft_name hn]
  have hname : (name ++ rest).takeWhile isNameChar = name := by
    rw [List.takeWhile_append_of_pos hn.isNameChar, hr.takeWhile, List.append_nil]
  have hrest : (name ++ rest).dropWhile isNameChar = rest := by
    rw [List.dropWhile_append_of_pos hn.isNameChar, hr.dropWhile]
  simp only [readBody?, hbody, hname, hrest, if_pos hn]

theorem readBody?_spelled (list items required : Bool) (hf : Blanks front) (hn : IsName name)
    (ha : Blanks a) (hb : Blanks b) (hd : Blanks d) :
    readBody? list (front ++ (name ++ (Marks.of list items required).spelled a b d)) =
      some ⟨String.ofList name, list, required⟩ := by
  rw [readBody?_append hf hn (Marks.stops_spelled ha hb hd),
    readMarks?_spelled (Marks.of_outer list items required) ha hb hd, Option.bind_some,
    ofMarks?_eq_some_iff]
  exact ⟨items, required, rfl, rfl⟩

theorem exists_of_readBody?_eq_some (h : readBody? list cs = some r) :
    ∃ front name a b d items required, Blanks front ∧ IsName name ∧ Blanks a ∧ Blanks b ∧
      Blanks d ∧ cs = front ++ (name ++ (Marks.of list items required).spelled a b d) ∧
      r = ⟨String.ofList name, list, required⟩ := by
  obtain ⟨front, hf, hcs⟩ := exists_append_trimLeft cs
  simp only [readBody?, Option.ite_none_right_eq_some, Option.bind_eq_some_iff] at h
  obtain ⟨hn, m, hm, hr⟩ := h
  obtain ⟨a, b, d, ha, hb, hd, hspelled⟩ := exists_of_readMarks?_eq_some hm
  obtain ⟨items, required, rfl, rfl⟩ := ofMarks?_eq_some_iff.mp hr
  refine ⟨front, (trimLeft cs).takeWhile isNameChar, a, b, d, items, required, hf, hn, ha, hb, hd,
    ?_, rfl⟩
  rwa [← hspelled, List.takeWhile_append_dropWhile]

theorem readBody?_cons_eq_none (hb : isBlank c = false) (h : isNameChar c = false) :
    readBody? list (c :: cs) = none := by
  have hbody : trimLeft (c :: cs) = c :: cs := trimLeft_eq_self (stops_cons hb)
  have hname : (c :: cs).takeWhile isNameChar = [] := by simp [h]
  simp only [readBody?, hbody, hname]
  exact if_neg id

theorem read?_name (hn : IsName name) : read? (name ++ rest) = readBody? false (name ++ rest) := by
  cases name with
  | nil => exact absurd hn id
  | cons c cs =>
    have hc : c ≠ '[' := fun he => absurd hn.1 (he ▸ by decide)
    rw [List.cons_append, read?]
    intro cs' he
    exact hc (List.cons.inj he).1

end Bodies

section Rendering

variable {name : List Char} {list items required : Bool} {m : Marks} {r r' : Reference}

def opening (list : Bool) : List Char := if list then ['['] else []

def Marks.chars (m : Marks) : List Char := m.spelled [] [] []

theorem blanks_nil : Blanks [] := fun _ hc => absurd hc List.not_mem_nil

theorem Marks.isMark_of_mem_chars : ∀ c ∈ m.chars, IsMark c := by
  intro c hc
  rcases Marks.mem_spelled hc with (hc | hc | hc) | hmark
  · cases hc
  · cases hc
  · cases hc
  · exact hmark

theorem not_isBlank_of_mem (hn : IsName name) : ∀ c ∈ name ++ m.chars, isBlank c = false := by
  intro c hc
  rcases List.mem_append.mp hc with hc | hc
  · exact isBlank_of_isNameChar (hn.isNameChar c hc)
  · exact (Marks.isMark_of_mem_chars c hc).not_isBlank

theorem parse?_of_toList (text : String) (hn : IsName name)
    (ht : text.toList = opening list ++ (name ++ (Marks.of list items required).chars)) :
    parse? text = some ⟨String.ofList name, list, required⟩ := by
  have hbody : readBody? list (name ++ (Marks.of list items required).chars) =
      some ⟨String.ofList name, list, required⟩ := by
    have hspelled :=
      readBody?_spelled list items required blanks_nil hn blanks_nil blanks_nil blanks_nil
    rwa [List.nil_append] at hspelled
  have hblank := not_isBlank_of_mem (m := Marks.of list items required) hn
  cases list with
  | false =>
    change text.toList = name ++ _ at ht
    rw [parse?, ht, trim_eq_self hblank, read?_name hn]
    exact hbody
  | true =>
    change text.toList = '[' :: (name ++ _) at ht
    have hall : ∀ c ∈ '[' :: (name ++ (Marks.of true items required).chars),
        isBlank c = false := by
      rw [List.forall_mem_cons]
      exact ⟨by decide, hblank⟩
    rw [parse?, ht, trim_eq_self hall, read?]
    exact hbody

theorem toList_render (r : Reference) :
    r.render.toList =
      opening r.list ++ (r.target.toList ++ (Marks.of r.list false r.required).chars) := by
  cases hl : r.list <;> cases hr : r.required <;>
    simp [render, opening, Marks.of, Marks.chars, Marks.spelled, mark, bracket, hl, hr]

theorem parse?_render (h : IsName r.target.toList) : parse? r.render = some r := by
  have hname : String.ofList r.target.toList = r.target := String.ofList_toList
  rw [parse?_of_toList r.render h r.toList_render, hname]

theorem eq_of_render_eq (h : IsName r.target.toList) (h' : IsName r'.target.toList)
    (he : r.render = r'.render) : r = r' := by
  have hread := parse?_render h
  rw [he, parse?_render h'] at hread
  exact (Option.some.inj hread).symm

theorem parse_render (h : IsName r.target.toList) : parse r.render = .ok r :=
  parse_eq_ok_iff.mpr (parse?_render h)

end Rendering

end Reference
end TypeGraph
