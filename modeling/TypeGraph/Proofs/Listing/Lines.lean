import TypeGraph.Listing
import TypeGraph.Proofs.Listing.Named

/-! Reading a listing back. Where the names are spelled as names every line shows where its parts
end, so the whole text determines the query root and, in order, each field with its type and its
arguments. -/

namespace TypeGraph

namespace Text

theorem intercalate_cons (sep chars : List Char) (rest : List (List Char)) :
    sep.intercalate (chars :: rest) = chars ++ rest.flatMap (sep ++ ·) := by
  induction rest generalizing chars with
  | nil => simp
  | cons next rest ih =>
    rw [List.intercalate_cons_cons, ih, List.flatMap_cons, List.append_assoc, List.append_assoc]

end Text

open Text

namespace Reference

variable {r r' : Reference} {cs ds : List Char}

def isChar (c : Char) : Bool := isNameChar c || c == '[' || decide (IsMark c)

theorem Named.isChar (h : r.Named) : ∀ c ∈ r.render.toList, isChar c := by
  intro c hc
  rw [toList_render, List.mem_append, List.mem_append] at hc
  rcases hc with hopening | htarget | hclosing
  · have hbracket := List.mem_singleton.mp (List.mem_ite_nil_right.mp hopening).2
    rw [hbracket]
    decide
  · simp [Reference.isChar, IsName.isNameChar h c htarget]
  · simp [Reference.isChar, Marks.isMark_of_mem_chars c hclosing]

/-- What is rendered determines the reference, and where it ends in a longer text. -/
theorem Named.render_append_inj (h : r.Named) (h' : r'.Named) (hc : Stops Reference.isChar cs)
    (hd : Stops Reference.isChar ds) (he : r.render.toList ++ cs = r'.render.toList ++ ds) :
    r = r' ∧ cs = ds := by
  obtain ⟨hrender, hrest⟩ := append_inj_of_stops h.isChar h'.isChar hc hd he
  exact ⟨eq_of_render_eq h h' (String.toList_inj.mp hrender), hrest⟩

end Reference

namespace Listing

section Arguments

variable {e e' : String × Reference} {es es' : List (String × Reference)} {cs ds : List Char}

def NamedArgument (e : String × Reference) : Prop := IsName e.1.toList ∧ e.2.Named

def argumentChars (e : String × Reference) : List Char :=
  e.1.toList ++ ':' :: ' ' :: e.2.render.toList

def furtherChars (es : List (String × Reference)) : List Char :=
  es.flatMap fun e => ',' :: ' ' :: argumentChars e

def argumentsChars : List (String × Reference) → List Char
  | [] => []
  | e :: es => '(' :: (argumentChars e ++ (furtherChars es ++ [')']))

theorem toList_argumentsText (args : Table String Reference) :
    (argumentsText args).toList = argumentsChars args.entries := by
  unfold argumentsText
  cases args.entries with
  | nil => rfl
  | cons e es =>
    have hcomma : ", ".toList = [',', ' '] := rfl
    have hcolon : ": ".toList = [':', ' '] := rfl
    simp [String.toList_intercalate, intercalate_cons, argumentsChars, argumentChars,
      furtherChars, hcomma, hcolon, List.flatMap_map]

theorem stops_further (es : List (String × Reference)) (cs : List Char) :
    Stops Reference.isChar (furtherChars es ++ ')' :: cs) := by
  cases es with
  | nil => exact stops_cons (by decide)
  | cons e es => exact stops_cons (by decide)

theorem argument_append_inj (h : NamedArgument e) (h' : NamedArgument e')
    (hc : Stops Reference.isChar cs) (hd : Stops Reference.isChar ds)
    (he : argumentChars e ++ cs = argumentChars e' ++ ds) : e = e' ∧ cs = ds := by
  simp only [argumentChars, List.append_assoc, List.cons_append] at he
  obtain ⟨hname, hrest⟩ := append_inj_of_stops h.1.isNameChar h'.1.isNameChar
    (stops_cons (by decide)) (stops_cons (by decide)) he
  simp only [List.cons.injEq, true_and] at hrest
  obtain ⟨htype, hrest⟩ := h.2.render_append_inj h'.2 hc hd hrest
  exact ⟨Prod.ext (String.toList_inj.mp hname) htype, hrest⟩

theorem further_append_inj (h : ∀ e ∈ es, NamedArgument e) (h' : ∀ e ∈ es', NamedArgument e)
    (he : furtherChars es ++ ')' :: cs = furtherChars es' ++ ')' :: ds) : es = es' ∧ cs = ds := by
  induction es generalizing es' with
  | nil =>
    cases es' with
    | nil => exact ⟨rfl, (List.cons.inj he).2⟩
    | cons e' es' => simp [furtherChars] at he
  | cons e es ih =>
    cases es' with
    | nil => simp [furtherChars] at he
    | cons e' es' =>
      rw [List.forall_mem_cons] at h h'
      simp only [furtherChars, List.flatMap_cons, List.cons_append, List.append_assoc,
        List.cons.injEq, true_and] at he
      obtain ⟨rfl, hfurther⟩ :=
        argument_append_inj h.1 h'.1 (stops_further es cs) (stops_further es' ds) he
      obtain ⟨rfl, hrest⟩ := ih h.2 h'.2 hfurther
      exact ⟨rfl, hrest⟩

theorem arguments_append_inj (h : ∀ e ∈ es, NamedArgument e) (h' : ∀ e ∈ es', NamedArgument e)
    (he : argumentsChars es ++ ':' :: cs = argumentsChars es' ++ ':' :: ds) :
    es = es' ∧ cs = ds := by
  cases es with
  | nil =>
    cases es' with
    | nil => exact ⟨rfl, (List.cons.inj he).2⟩
    | cons e' es' => simp [argumentsChars] at he
  | cons e es =>
    cases es' with
    | nil => simp [argumentsChars] at he
    | cons e' es' =>
      rw [List.forall_mem_cons] at h h'
      simp only [argumentsChars, List.cons_append, List.append_assoc, List.nil_append,
        List.cons.injEq, true_and] at he
      obtain ⟨rfl, hfurther⟩ :=
        argument_append_inj h.1 h'.1 (stops_further es _) (stops_further es' _) he
      obtain ⟨rfl, hrest⟩ := further_append_inj h.2 h'.2 hfurther
      exact ⟨rfl, (List.cons.inj hrest).2⟩

theorem stops_arguments (es : List (String × Reference)) (cs : List Char) :
    Stops isNameChar (argumentsChars es ++ ':' :: cs) := by
  cases es with
  | nil => exact stops_cons (by decide)
  | cons e es => exact stops_cons (by decide)

end Arguments

section Rows

@[ext]
structure Row where
  type : String
  name : String
  field : Field
  deriving DecidableEq

def Row.line (row : Row) : String := fieldLine row.type row.name row.field

structure Row.Named (row : Row) : Prop where
  type : IsName row.type.toList
  name : IsName row.name.toList
  field : row.field.Named

def rows (c : Config) : List Row :=
  c.types.entries.flatMap fun e => e.2.entries.map fun d => ⟨e.1, d.1, d.2⟩

variable {row row' : Row} {c c' : Config} {cs ds : List Char}

theorem toList_line (row : Row) :
    row.line.toList = row.type.toList ++ '.' :: (row.name.toList ++
      (argumentsChars row.field.args.entries ++ ':' :: ' ' :: row.field.type.render.toList)) := by
  have hdot : ".".toList = ['.'] := rfl
  have hcolon : ": ".toList = [':', ' '] := rfl
  simp [Row.line, fieldLine, toList_argumentsText, hdot, hcolon]

/-- A line determines its row, and where the next line begins. -/
theorem line_append_inj (h : row.Named) (h' : row'.Named)
    (he : row.line.toList ++ '\n' :: cs = row'.line.toList ++ '\n' :: ds) :
    row = row' ∧ cs = ds := by
  simp only [toList_line, List.append_assoc, List.cons_append] at he
  obtain ⟨htype, hdot⟩ := append_inj_of_stops h.type.isNameChar h'.type.isNameChar
    (stops_cons (by decide)) (stops_cons (by decide)) he
  obtain ⟨hname, hrest⟩ := append_inj_of_stops h.name.isNameChar h'.name.isNameChar
    (stops_arguments _ _) (stops_arguments _ _) (List.cons.inj hdot).2
  obtain ⟨hargs, hcolon⟩ := arguments_append_inj h.field.args h'.field.args hrest
  obtain ⟨href, hend⟩ := h.field.type.render_append_inj h'.field.type
    (stops_cons (by decide)) (stops_cons (by decide)) (List.cons.inj hcolon).2
  have hfield : row.field = row'.field := Field.ext href (Table.ext hargs)
  exact ⟨Row.ext (String.toList_inj.mp htype) (String.toList_inj.mp hname) hfield,
    (List.cons.inj hend).2⟩

theorem named_of_mem_rows (hc : c.Named) : ∀ row ∈ rows c, row.Named := by
  intro row hrow
  obtain ⟨e, he, hrow⟩ := List.mem_flatMap.mp hrow
  obtain ⟨d, hd, rfl⟩ := List.mem_map.mp hrow
  obtain ⟨htype, hfields⟩ := hc.types e he
  obtain ⟨hname, hfield⟩ := hfields d hd
  exact ⟨htype, hname, hfield⟩

def rowsChars (rows : List Row) : List Char := rows.flatMap fun row => row.line.toList ++ ['\n']

theorem rowsChars_inj {rs rs' : List Row} (h : ∀ row ∈ rs, row.Named)
    (h' : ∀ row ∈ rs', row.Named) (he : rowsChars rs = rowsChars rs') : rs = rs' := by
  induction rs generalizing rs' with
  | nil =>
    cases rs' with
    | nil => rfl
    | cons row' rs' => simp [rowsChars] at he
  | cons row rs ih =>
    cases rs' with
    | nil => simp [rowsChars] at he
    | cons row' rs' =>
      rw [List.forall_mem_cons] at h h'
      simp only [rowsChars, List.flatMap_cons, List.append_assoc, List.cons_append,
        List.nil_append] at he
      obtain ⟨rfl, hrest⟩ := line_append_inj h.1 h'.1 he
      rw [ih h.2 h'.2 hrest]

end Rows

end Listing
end TypeGraph
