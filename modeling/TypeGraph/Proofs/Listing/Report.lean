import TypeGraph.Proofs.Listing.Lines
import TypeGraph.Proofs.Renaming.Missing
import TypeGraph.Sdl.Build

/-! What a listing prints for the schema that a text describes: the placeholders that are no types
of it, or its query root and all its fields under their readable names. -/

namespace TypeGraph.Listing

open Text

def placeholders : List String := ["Query", "A", "B", "Mutation"]

theorem entries_names : names.entries = [("Query", "PostQuery"), ("A", "User"), ("B", "InputUser"),
    ("Mutation", "UserMutation")] := by
  have hspelled : ∀ key ∈ placeholders, IsName key.toList := by decide
  exact Table.entries_ofRecord (by decide) fun key hm => (hspelled key hm).not_isIndex

theorem keys_names : names.keys = placeholders := by
  rw [Table.keys, entries_names]
  rfl

theorem isName_of_mem_values_names : ∀ name ∈ names.values, IsName name.toList := by
  rw [Table.values, entries_names]
  decide

variable {c c' : Config}

theorem applies_names_iff : names.Applies c ↔ ∀ name ∈ placeholders, name ∈ c.types := by
  rw [← keys_names]
  rfl

def Report.stdout (report : Report) : String := String.join (report.output.map (· ++ "\n"))

/-- The query root and all fields are the same, the fields in the same order with the same
arguments. -/
structure SameListing (c c' : Config) : Prop where
  query : c.roots.query = c'.roots.query
  rows : rows c = rows c'

theorem lines_eq (c : Config) : lines c = rootLine c :: (rows c).map Row.line := by
  rw [lines, rows, List.map_flatMap]
  simp only [List.map_map]
  rfl

theorem toList_stdout_lines (c : Config) :
    (Report.mk (lines c) [] 0).stdout.toList = "query root: ".toList ++
      ((c.roots.query.getD "(none)").toList ++ '\n' :: rowsChars (rows c)) := by
  have hnewline : "\n".toList = ['\n'] := rfl
  simp only [Report.stdout, lines_eq, rootLine, rowsChars, String.toList_join, List.map_cons,
    List.map_map, List.flatMap_cons, List.flatMap_map, Function.comp_apply, String.toList_append,
    hnewline, List.append_assoc, List.cons_append, List.nil_append]

section Roots

variable {query query' : Option String} {cs ds : List Char}

theorem ne_newline_of_mem_root (h : ∀ name ∈ query, IsName name.toList) :
    ∀ c ∈ (query.getD "(none)").toList, (c != '\n') = true := by
  cases query with
  | none => simp
  | some name =>
    intro c hc
    have hchar := (h name rfl).isNameChar c hc
    rw [bne_iff_ne]
    rintro rfl
    exact absurd hchar (by decide)

theorem eq_of_getD_root (h : ∀ name ∈ query, IsName name.toList)
    (h' : ∀ name ∈ query', IsName name.toList) (he : query.getD "(none)" = query'.getD "(none)") :
    query = query' := by
  have hnone : ¬ IsName "(none)".toList := by decide
  cases query with
  | none =>
    cases query' with
    | none => rfl
    | some name =>
      have hname := h' name rfl
      rw [← show "(none)" = name from he] at hname
      exact absurd hname hnone
  | some name =>
    cases query' with
    | none =>
      have hname := h name rfl
      rw [show name = "(none)" from he] at hname
      exact absurd hname hnone
    | some name' => exact congrArg some he

theorem root_append_inj (h : ∀ name ∈ query, IsName name.toList)
    (h' : ∀ name ∈ query', IsName name.toList)
    (he : (query.getD "(none)").toList ++ '\n' :: cs =
      (query'.getD "(none)").toList ++ '\n' :: ds) : query = query' ∧ cs = ds := by
  obtain ⟨htext, hrest⟩ := append_inj_of_stops (ne_newline_of_mem_root h)
    (ne_newline_of_mem_root h') (stops_cons (by decide)) (stops_cons (by decide)) he
  exact ⟨eq_of_getD_root h h' (String.toList_inj.mp htext), (List.cons.inj hrest).2⟩

end Roots

theorem isName_of_mem_query (hc : c.Named) : ∀ name ∈ c.roots.query, IsName name.toList :=
  fun name hname => hc.roots name (Roots.mem_names_iff.mpr ⟨.query, hname⟩)

theorem sameListing_of_stdout (hc : c.Named) (hc' : c'.Named)
    (he : (Report.mk (lines c) [] 0).stdout = (Report.mk (lines c') [] 0).stdout) :
    SameListing c c' := by
  have hchars := congrArg String.toList he
  rw [toList_stdout_lines, toList_stdout_lines, List.append_cancel_left_eq] at hchars
  obtain ⟨hquery, hrows⟩ :=
    root_append_inj (isName_of_mem_query hc) (isName_of_mem_query hc') hchars
  exact ⟨hquery, rowsChars_inj (named_of_mem_rows hc) (named_of_mem_rows hc') hrows⟩

def notFound (name : String) : String := "Type '" ++ name ++ "' not found in configuration."

/-- What is printed for a configuration: an error line for each placeholder that is no type of it,
or else a line for the query root and one for each field after the renaming. -/
structure Report.Tells (report : Report) (c : Config) : Prop where
  fails_iff : report.exitCode = 1 ∧ report.stdout = "" ↔ ∃ name ∈ placeholders, name ∉ c.types
  errors : (∃ name ∈ placeholders, name ∉ c.types) →
    report.errors = (placeholders.filter fun name => name ∉ c.types).map notFound
  lists : (∀ name ∈ placeholders, name ∈ c.types) →
    report.exitCode = 0 ∧ report.errors = [] ∧ names.apply c = .success (names.rename c) ∧
    report.output = rootLine (names.rename c).config :: (rows (names.rename c).config).map Row.line

theorem report_of_applies (h : names.Applies c) :
    report (names.apply c) = ⟨lines (names.rename c).config, [], 0⟩ := by
  rw [Renaming.apply_eq_success_iff.mpr ⟨h, rfl⟩]
  rfl

theorem report_of_not_applies (h : ¬ names.Applies c) :
    report (names.apply c) =
      ⟨[], (placeholders.filter fun name => name ∉ c.types).map notFound, 1⟩ := by
  have hcauses := Renaming.causes_apply names c
  cases happly : names.apply c with
  | success renamed => exact absurd (Renaming.apply_eq_success_iff.mp happly).1 h
  | failure e =>
    have hmessages : e.messages.map MissingType.message =
        (placeholders.filter fun name => name ∉ c.types).map notFound := by
      rw [happly, keys_names] at hcauses
      rw [Failure.messages, show e.causes = _ from hcauses, List.map_map, List.map_map]
      rfl
    rw [report, hmessages]

theorem tells_report (c : Config) : (report (names.apply c)).Tells c := by
  have hmissing : ¬ names.Applies c ↔ ∃ name ∈ placeholders, name ∉ c.types := by
    rw [applies_names_iff]
    push Not
    rfl
  by_cases h : names.Applies c
  · rw [report_of_applies h]
    have hnone : ¬ ∃ name ∈ placeholders, name ∉ c.types := fun hm => hmissing.mpr hm h
    refine ⟨iff_of_false ?_ hnone, fun hm => absurd hm hnone, fun _ => ⟨rfl, rfl, ?_, lines_eq _⟩⟩
    · rintro ⟨hexit, -⟩
      exact Nat.zero_ne_one hexit
    · exact Renaming.apply_eq_success_iff.mpr ⟨h, rfl⟩
  · rw [report_of_not_applies h]
    exact ⟨iff_of_true ⟨rfl, rfl⟩ (hmissing.mp h), fun _ => rfl,
      fun hall => absurd (applies_names_iff.mpr hall) h⟩

theorem exitCode_report_eq_zero_iff : (report (names.apply c)).exitCode = 0 ↔ names.Applies c := by
  by_cases h : names.Applies c
  · simp [report_of_applies h, h]
  · simp [report_of_not_applies h, h]

section Texts

variable {F : Type} {read : SchemaReader String F} {sdl : String} {s : Schema}

theorem ofText_of_read (h : read sdl = .ok s) :
    ofText read sdl = .ok ⟨report (names.apply s.flatten),
      s.notices ++ Renaming.noticesOf (names.apply s.flatten)⟩ := by
  unfold ofText Loaded.ofText
  rw [h]
  rfl

/-- A text that describes a schema is listed, whatever reads it. The listing fails if and only if a
placeholder is no type of the schema, and then it names those that are not. Otherwise nothing is
lost: two texts with the same output have the same query root and the same fields after the
renaming. -/
theorem ofText_faithful (h : read sdl = .ok s) :
    ∃ listed, ofText read sdl = .ok listed ∧ listed.report.Tells s.flatten ∧
      ∀ sdl' s' listed', read sdl' = .ok s' → ofText read sdl' = .ok listed' →
        listed.report.exitCode = 0 → listed'.report.exitCode = 0 →
        listed.report.stdout = listed'.report.stdout →
        SameListing (names.rename s.flatten).config (names.rename s'.flatten).config := by
  refine ⟨_, ofText_of_read h, tells_report s.flatten, ?_⟩
  intro sdl' s' listed' h' hlisted hexit hexit' hstdout
  obtain rfl := Except.ok.inj ((ofText_of_read h').symm.trans hlisted)
  have ha := exitCode_report_eq_zero_iff.mp hexit
  have ha' := exitCode_report_eq_zero_iff.mp hexit'
  simp only [report_of_applies ha, report_of_applies ha'] at hstdout
  exact sameListing_of_stdout
    (Renaming.named_rename ha isName_of_mem_values_names s.named_flatten)
    (Renaming.named_rename ha' isName_of_mem_values_names s'.named_flatten) hstdout

end Texts

section Samples

def users : String :=
  "type Query \x7b a(by: [B!], n: Int): A! \x7d type A \x7b q: Query \x7d" ++
    "input B \x7b n: Int \x7d type Mutation \x7b m: A \x7d"

/-- A type has a readable name already. Its place goes to the type that is renamed to this name. -/
def replacedUsers : String :=
  "type Query \x7b a(by: [B], n: Int): User! \x7d type User \x7b old: Int \x7d" ++
    "input B \x7b n: Int \x7d type Mutation \x7b m: A \x7d type A \x7b q: Query \x7d"

def queryFields (user : String) : Fields :=
  Table.ofList [("a", ⟨⟨user, false, true⟩,
    Table.ofList [("by", ⟨"B", true, false⟩), ("n", ⟨"Int", false, false⟩)]⟩)]

def plainFields (name target : String) : Fields :=
  Table.ofList [(name, ⟨⟨target, false, false⟩, Table.empty⟩)]

def usersConfig : Config :=
  ⟨Table.ofList [("Query", queryFields "A"), ("A", plainFields "q" "Query"),
      ("B", plainFields "n" "Int"), ("Mutation", plainFields "m" "A")],
    { query := some "Query", mutation := some "Mutation" }⟩

def replacedConfig : Config :=
  ⟨Table.ofList [("Query", queryFields "User"), ("User", plainFields "old" "Int"),
      ("B", plainFields "n" "Int"), ("Mutation", plainFields "m" "A"),
      ("A", plainFields "q" "Query")],
    { query := some "Query", mutation := some "Mutation" }⟩

def usersLines : List String :=
  ["query root: PostQuery", "PostQuery.a(by: [InputUser], n: Int): User!", "User.q: PostQuery",
    "InputUser.n: Int", "UserMutation.m: User"]

theorem exists_readSchema {text : String} {c : Config}
    (h : Loaded.ofText Sdl.readSchema text = .ok ⟨c, []⟩) :
    ∃ s, Sdl.readSchema text = .ok s ∧ s.flatten = c := by
  unfold Loaded.ofText at h
  cases hread : Sdl.readSchema text with
  | error e =>
    rw [hread] at h
    cases h
  | ok s =>
    rw [hread] at h
    exact ⟨s, rfl, congrArg Loaded.config (Except.ok.inj h)⟩

theorem ofText_faithful_users :
    ∃ s s', Sdl.readSchema users = .ok s ∧ Sdl.readSchema replacedUsers = .ok s' ∧
    s.flatten = usersConfig ∧ s'.flatten = replacedConfig ∧
    ∃ listed listed', ofText Sdl.readSchema users = .ok listed ∧
      ofText Sdl.readSchema replacedUsers = .ok listed' ∧
      listed.report.Tells usersConfig ∧ listed'.report.Tells replacedConfig ∧
      listed.report.output = usersLines ∧ listed'.report.output = usersLines ∧
      SameListing (names.rename usersConfig).config (names.rename replacedConfig).config := by
  have hload : Loaded.ofText Sdl.readSchema users = .ok ⟨usersConfig, []⟩ := by decide +kernel
  have hload' : Loaded.ofText Sdl.readSchema replacedUsers = .ok ⟨replacedConfig, []⟩ := by
    decide +kernel
  obtain ⟨s, hread, hconfig⟩ := exists_readSchema hload
  obtain ⟨s', hread', hconfig'⟩ := exists_readSchema hload'
  obtain ⟨listed, hlisted, htells, hsame⟩ := ofText_faithful hread
  obtain ⟨listed', hlisted', htells', -⟩ := ofText_faithful hread'
  rw [hconfig] at htells hsame
  rw [hconfig'] at htells'
  obtain ⟨hexit, -, -, houtput⟩ := htells.lists (by decide)
  obtain ⟨hexit', -, -, houtput'⟩ := htells'.lists (by decide)
  have hlines : listed.report.output = usersLines := houtput.trans (by decide +kernel)
  have hlines' : listed'.report.output = usersLines := houtput'.trans (by decide +kernel)
  have hstdout : listed.report.stdout = listed'.report.stdout := by
    rw [Report.stdout, Report.stdout, hlines, hlines']
  have halike := hsame replacedUsers s' listed' hread' hlisted' hexit hexit' hstdout
  rw [hconfig'] at halike
  exact ⟨s, s', hread, hread', hconfig, hconfig', listed, listed', hlisted, hlisted', htells,
    htells', hlines, hlines', halike⟩

example :
    (ofText Sdl.readSchema "type Mutation \x7b n: B \x7d input B \x7b n: Int \x7d").toOption.map
      (fun listed => (listed.report.output, listed.report.errors, listed.report.exitCode)) =
      some ([], ["Type 'Query' not found in configuration.",
        "Type 'A' not found in configuration."], 1) := by decide +kernel

end Samples

end TypeGraph.Listing
