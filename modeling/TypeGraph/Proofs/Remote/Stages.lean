import TypeGraph.Introspection
import TypeGraph.Introspection.Query
import TypeGraph.Loading
import TypeGraph.Proofs.Alike

/-! Loading from an endpoint in stages. Each stage has its own condition, whatever the others do,
and the error of a load is that of the first stage whose condition fails. -/

namespace TypeGraph

inductive Json.Falsy : Json → Prop where
  | null : Falsy .null
  | false : Falsy (.bool false)
  | zero (x : Binary64) (h : x.isZero) : Falsy (.number x)
  | empty : Falsy (.string [])

theorem Json.isEmptyValue_iff {j : Json} : j.isEmptyValue = true ↔ j.Falsy := by
  constructor
  · intro h
    cases j with
    | null => exact .null
    | bool b =>
      cases b with
      | false => exact .false
      | true => cases h
    | number x => exact .zero x h
    | string t =>
      cases t with
      | nil => exact .empty
      | cons g t => cases h
    | array items => cases h
    | object members => cases h
  · intro h
    cases h with
    | null => rfl
    | false => rfl
    | zero x h => exact h
    | empty => rfl

namespace Remote

/-- What has to go well for a load, in the order in which it is found out. -/
inductive Stage where
  | transport
  | status
  | json
  | value
  | errors
  | data
  | schema
  deriving DecidableEq

namespace Stage

def all : List Stage := [transport, status, json, value, errors, data, schema]

def before (s : Stage) : List Stage := all.takeWhile fun t => t ≠ s

theorem eq_or_mem_before (s t : Stage) : s = t ∨ s ∈ t.before ∨ t ∈ s.before := by
  cases s <;> cases t <;> decide

end Stage

def Successful (reply : Reply) : Prop := 200 ≤ reply.status ∧ reply.status ≤ 299

theorem isSuccess_iff {reply : Reply} : isSuccess reply.status = true ↔ Successful reply := by
  simp only [isSuccess, Successful, Bool.and_eq_true, decide_eq_true_eq]
  omega

variable {F : Type} {read : SchemaReader Json F} {query endpoint : String}
  {headers : List (String × String)} {outcome : Except String Reply} {reply : Reply} {j data : Json} {s s' : Schema}
  {stage stage' : Stage} {fault fault' : Fault F}

inductive Breaks (read : SchemaReader Json F) (endpoint : String) :
    Except String Reply → Stage → Fault F → Prop where
  | transport (reason : String) :
    Breaks read endpoint (.error reason) .transport (.transport reason)
  | status (reply : Reply) (h : ¬ Successful reply) :
    Breaks read endpoint (.ok reply) .status (.status endpoint reply.status)
  | json (reply : Reply) (h : valueOf? reply.body = none) :
    Breaks read endpoint (.ok reply) .json .notJson
  | value (reply : Reply) (h : valueOf? reply.body = some .null) :
    Breaks read endpoint (.ok reply) .value .nullBody
  | errors (reply : Reply) (j errors : Json) (hj : valueOf? reply.body = some j)
    (he : j.member? "errors" = some errors) :
    Breaks read endpoint (.ok reply) .errors (.reported endpoint errors)
  | data (reply : Reply) (j : Json) (hj : valueOf? reply.body = some j)
    (hd : ∀ data, j.member? "data" = some data → data.Falsy) :
    Breaks read endpoint (.ok reply) .data (.noData endpoint)
  | schema (reply : Reply) (j data : Json) (e : F)
    (hj : valueOf? reply.body = some j) (hd : j.member? "data" = some data)
    (he : read data = .error e) : Breaks read endpoint (.ok reply) .schema (.schema e)

def ClearBefore (read : SchemaReader Json F) (endpoint : String) (outcome : Except String Reply)
    (stage : Stage) : Prop :=
  ∀ earlier ∈ stage.before, ∀ fault, ¬ Breaks read endpoint outcome earlier fault

def BreaksFirst (read : SchemaReader Json F) (endpoint : String) (outcome : Except String Reply)
    (stage : Stage) (fault : Fault F) : Prop :=
  Breaks read endpoint outcome stage fault ∧ ClearBefore read endpoint outcome stage

/-- Every stage goes well, and the data of the reply is read as a schema. -/
structure Describes (read : SchemaReader Json F) (reply : Reply) (s : Schema) : Prop where
  successful : Successful reply
  value : ∃ j, valueOf? reply.body = some j ∧ j ≠ .null ∧ j.member? "errors" = none ∧
    ∃ data, j.member? "data" = some data ∧ ¬ data.Falsy ∧ read data = .ok s

theorem Describes.unique (h : Describes read reply s) (h' : Describes read reply s') : s = s' := by
  obtain ⟨-, j, hj, -, -, data, hd, -, hread⟩ := h
  obtain ⟨-, j', hj', -, -, data', hd', -, hread'⟩ := h'
  rw [hj, Option.some.injEq] at hj'
  rw [← hj', hd, Option.some.injEq] at hd'
  rw [← hd', hread, Except.ok.injEq] at hread'
  exact hread'

theorem Breaks.unique (h : Breaks read endpoint outcome stage fault)
    (h' : Breaks read endpoint outcome stage fault') : fault = fault' := by
  cases h with
  | transport reason => cases h'; rfl
  | status reply h => cases h'; rfl
  | json reply h => cases h'; rfl
  | value reply h => cases h'; rfl
  | errors reply j errors hj he =>
    cases h' with
    | errors _ j' errors' hj' he' =>
      rw [hj, Option.some.injEq] at hj'
      rw [← hj', he, Option.some.injEq] at he'
      rw [he']
  | data reply j hj hd => cases h'; rfl
  | schema reply j data e hj hd he =>
    cases h' with
    | schema _ j' data' e' hj' hd' he' =>
      rw [hj, Option.some.injEq] at hj'
      rw [← hj', hd, Option.some.injEq] at hd'
      rw [← hd', he, Except.error.injEq] at he'
      rw [he']

theorem BreaksFirst.unique (h : BreaksFirst read endpoint outcome stage fault)
    (h' : BreaksFirst read endpoint outcome stage' fault') : fault = fault' := by
  rcases Stage.eq_or_mem_before stage stage' with rfl | hm | hm
  · exact h.1.unique h'.1
  · exact absurd h.1 (h'.2 stage hm fault)
  · exact absurd h'.1 (h.2 stage' hm fault')

section Passing

theorem not_breaks_transport : ¬ Breaks read endpoint (.ok reply) .transport fault := by
  intro h
  cases h

theorem not_breaks_status (hs : Successful reply) :
    ¬ Breaks read endpoint (.ok reply) .status fault := by
  intro h
  cases h with
  | status _ hfails => exact hfails hs

theorem not_breaks_json (hj : valueOf? reply.body = some j) :
    ¬ Breaks read endpoint (.ok reply) .json fault := by
  intro h
  cases h with
  | json _ hfails =>
    rw [hj] at hfails
    cases hfails

theorem not_breaks_value (hj : valueOf? reply.body = some j) (hnull : j ≠ .null) :
    ¬ Breaks read endpoint (.ok reply) .value fault := by
  intro h
  cases h with
  | value _ hfails =>
    rw [hj, Option.some.injEq] at hfails
    exact hnull hfails

theorem not_breaks_errors (hj : valueOf? reply.body = some j) (he : j.member? "errors" = none) :
    ¬ Breaks read endpoint (.ok reply) .errors fault := by
  intro h
  cases h with
  | errors _ j' errors hj' hfails =>
    rw [hj, Option.some.injEq] at hj'
    rw [← hj', he] at hfails
    cases hfails

theorem not_breaks_data (hj : valueOf? reply.body = some j) (hd : j.member? "data" = some data)
    (htrue : ¬ data.Falsy) : ¬ Breaks read endpoint (.ok reply) .data fault := by
  intro h
  cases h with
  | data _ j' hj' hfails =>
    rw [hj, Option.some.injEq] at hj'
    exact htrue (hfails data (hj' ▸ hd))

theorem not_breaks_schema (hj : valueOf? reply.body = some j) (hd : j.member? "data" = some data)
    (hread : read data = .ok s) : ¬ Breaks read endpoint (.ok reply) .schema fault := by
  intro h
  cases h with
  | schema _ j' data' e hj' hd' hfails =>
    rw [hj, Option.some.injEq] at hj'
    rw [← hj', hd, Option.some.injEq] at hd'
    rw [← hd', hread] at hfails
    cases hfails

theorem Describes.not_breaks (h : Describes read reply s) :
    ¬ Breaks read endpoint (.ok reply) stage fault := by
  obtain ⟨hs, j, hj, hnull, he, data, hd, htrue, hread⟩ := h
  cases stage with
  | transport => exact not_breaks_transport
  | status => exact not_breaks_status hs
  | json => exact not_breaks_json hj
  | value => exact not_breaks_value hj hnull
  | errors => exact not_breaks_errors hj he
  | data => exact not_breaks_data hj hd htrue
  | schema => exact not_breaks_schema hj hd hread

end Passing

theorem clearBefore_transport (outcome : Except String Reply) :
    ClearBefore read endpoint outcome .transport := fun _ hm => absurd hm List.not_mem_nil

theorem ClearBefore.next (h : ClearBefore read endpoint outcome stage)
    (hb : stage'.before = stage.before ++ [stage])
    (hn : ∀ fault, ¬ Breaks read endpoint outcome stage fault) :
    ClearBefore read endpoint outcome stage' := by
  intro earlier hm
  rw [hb, List.mem_append, List.mem_singleton] at hm
  rcases hm with hm | rfl
  · exact h earlier hm
  · exact hn

theorem clearBefore_status (reply : Reply) : ClearBefore read endpoint (.ok reply) .status :=
  (clearBefore_transport _).next rfl fun _ => not_breaks_transport

section Replies

theorem dataOf_of_errors {errors : Json} (hnull : j ≠ .null)
    (he : j.member? "errors" = some errors) :
    (dataOf endpoint j : Except (Fault F) Json) = .error (.reported endpoint errors) := by
  unfold dataOf
  split
  · exact absurd rfl hnull
  · rw [he]

theorem dataOf_of_falsy (hnull : j ≠ .null) (he : j.member? "errors" = none)
    (hd : ∀ data, j.member? "data" = some data → data.Falsy) :
    (dataOf endpoint j : Except (Fault F) Json) = .error (.noData endpoint) := by
  unfold dataOf
  split
  · exact absurd rfl hnull
  · rw [he]
    cases hm : j.member? "data" with
    | none => rfl
    | some data => exact if_pos (Json.isEmptyValue_iff.mpr (hd data hm))

theorem dataOf_of_data (hnull : j ≠ .null) (he : j.member? "errors" = none)
    (hd : j.member? "data" = some data) (htrue : ¬ data.Falsy) :
    (dataOf endpoint j : Except (Fault F) Json) = .ok data := by
  unfold dataOf
  split
  · exact absurd rfl hnull
  · rw [he, hd]
    exact if_neg (mt Json.isEmptyValue_iff.mp htrue)

/-- A reply with a status that is a success is read as a schema, or one of the later stages is the
first that fails. -/
theorem schemaOf_cases (read : SchemaReader Json F) (endpoint : String) (hs : Successful reply) :
    (∃ s, Describes read reply s ∧ schemaOf read endpoint reply.body = .ok s) ∨
    ∃ stage fault, BreaksFirst read endpoint (.ok reply) stage fault ∧
      schemaOf read endpoint reply.body = .error fault := by
  have hjson : ClearBefore read endpoint (.ok reply) .json :=
    (clearBefore_status reply).next rfl fun _ => not_breaks_status hs
  unfold schemaOf
  cases hj : valueOf? reply.body with
  | none => exact .inr ⟨.json, _, ⟨.json reply hj, hjson⟩, rfl⟩
  | some j =>
    have hvalue : ClearBefore read endpoint (.ok reply) .value :=
      hjson.next rfl fun _ => not_breaks_json hj
    by_cases hnull : j = .null
    · subst hnull
      exact .inr ⟨.value, _, ⟨.value reply hj, hvalue⟩, rfl⟩
    · have herrors : ClearBefore read endpoint (.ok reply) .errors :=
        hvalue.next rfl fun _ => not_breaks_value hj hnull
      cases he : j.member? "errors" with
      | some errors =>
        simp only [dataOf_of_errors hnull he]
        exact .inr ⟨.errors, _, ⟨.errors reply j errors hj he, herrors⟩, rfl⟩
      | none =>
        have hdata : ClearBefore read endpoint (.ok reply) .data :=
          herrors.next rfl fun _ => not_breaks_errors hj he
        by_cases hfalsy : ∀ data, j.member? "data" = some data → data.Falsy
        · simp only [dataOf_of_falsy hnull he hfalsy]
          exact .inr ⟨.data, _, ⟨.data reply j hj hfalsy, hdata⟩, rfl⟩
        · simp only [not_forall] at hfalsy
          obtain ⟨data, hd, htrue⟩ := hfalsy
          have hschema : ClearBefore read endpoint (.ok reply) .schema :=
            hdata.next rfl fun _ => not_breaks_data hj hd htrue
          simp only [dataOf_of_data hnull he hd htrue]
          cases hread : read data with
          | ok s => exact .inl ⟨s, ⟨hs, j, hj, hnull, he, data, hd, htrue, hread⟩, rfl⟩
          | error e => exact .inr ⟨.schema, _, ⟨.schema reply j data e hj hd hread, hschema⟩, rfl⟩

end Replies

section Runs

variable {answer : Endpoint}

theorem run_of_error {reason : String}
    (h : answer (request query endpoint headers) = .error reason) :
    (load query read endpoint headers).run answer =
      ⟨.error (.transport reason), [request query endpoint headers], false⟩ := by
  simp [Exchange.run, load, Exchange.runAt, h]

theorem run_of_status (h : answer (request query endpoint headers) = .ok reply)
    (hs : ¬ Successful reply) :
    (load query read endpoint headers).run answer =
      ⟨.error (.status endpoint reply.status), [request query endpoint headers], false⟩ := by
  have hstatus : isSuccess reply.status = false := by
    rw [← Bool.not_eq_true, isSuccess_iff]
    exact hs
  simp [Exchange.run, load, Exchange.runAt, h, hstatus]

theorem run_of_success (h : answer (request query endpoint headers) = .ok reply)
    (hs : Successful reply) :
    (load query read endpoint headers).run answer =
      ⟨(schemaOf read endpoint reply.body).map Loaded.ofSchema, [request query endpoint headers],
        reply.body.isSome⟩ := by
  have hstatus : isSuccess reply.status = true := isSuccess_iff.mpr hs
  simp [Exchange.run, load, Exchange.runAt, h, hstatus]

structure Settles (read : SchemaReader Json F) (endpoint : String) (outcome : Except String Reply)
    (t : Transcript (Except (Fault F) Loaded)) : Prop where
  loaded : ∀ loaded, t.result = .ok loaded ↔
    ∃ reply s, outcome = .ok reply ∧ Describes read reply s ∧
      loaded.config = s.flatten ∧ loaded.notices = s.notices
  failed : ∀ fault, t.result = .error fault ↔
    ∃ stage, BreaksFirst read endpoint outcome stage fault
  silent : ∀ fault, t.result = .error fault → noticesOf t.result = []
  bodyRead : t.bodyRead = true ↔
    ∃ reply, outcome = .ok reply ∧ Successful reply ∧ reply.body.isSome = true

theorem settles_of_error {t : Transcript (Except (Fault F) Loaded)} (hr : t.result = .error fault)
    (hf : BreaksFirst read endpoint outcome stage fault)
    (hb : t.bodyRead = true ↔
      ∃ reply, outcome = .ok reply ∧ Successful reply ∧ reply.body.isSome = true) :
    Settles read endpoint outcome t where
  loaded loaded := by
    rw [hr]
    constructor
    · intro he
      cases he
    · rintro ⟨reply, s, rfl, hs, -⟩
      exact absurd hf.1 hs.not_breaks
  failed fault' := by
    rw [hr, Except.error.injEq]
    constructor
    · rintro rfl
      exact ⟨stage, hf⟩
    · rintro ⟨stage', hf'⟩
      exact hf.unique hf'
  silent _ _ := by
    rw [hr]
    rfl
  bodyRead := hb

theorem settles_of_ok {t : Transcript (Except (Fault F) Loaded)} (hr : t.result = .ok (.ofSchema s))
    (hs : Describes read reply s) (hb : t.bodyRead = reply.body.isSome) :
    Settles read endpoint (.ok reply) t where
  loaded loaded := by
    rw [hr, Except.ok.injEq]
    constructor
    · rintro rfl
      exact ⟨reply, s, rfl, hs, rfl, rfl⟩
    · rintro ⟨reply', s', he, hs', hconfig, hnotices⟩
      obtain rfl := Except.ok.inj he
      obtain rfl := hs.unique hs'
      obtain ⟨config, notices⟩ := loaded
      obtain rfl : config = s.flatten := hconfig
      obtain rfl : notices = s.notices := hnotices
      rfl
  failed fault := by
    rw [hr]
    constructor
    · intro he
      cases he
    · rintro ⟨stage, hf⟩
      exact absurd hf.1 hs.not_breaks
  silent fault he := by
    rw [hr] at he
    cases he
  bodyRead := by
    rw [hb]
    constructor
    · intro h
      exact ⟨reply, rfl, hs.successful, h⟩
    · rintro ⟨reply', he, -, h⟩
      rw [Except.ok.inj he]
      exact h

theorem settles_run (query : String) (read : SchemaReader Json F) (endpoint : String)
    (headers : List (String × String)) (answer : Endpoint) :
    Settles read endpoint (answer (request query endpoint headers))
      ((load query read endpoint headers).run answer) := by
  cases h : answer (request query endpoint headers) with
  | error reason =>
    rw [run_of_error h]
    refine settles_of_error rfl ⟨.transport reason, clearBefore_transport _⟩ ?_
    simp
  | ok reply =>
    by_cases hs : Successful reply
    · rw [run_of_success h hs]
      rcases schemaOf_cases read endpoint hs with ⟨s, hd, hok⟩ | ⟨stage, fault, hf, herror⟩
      · rw [hok]
        exact settles_of_ok rfl hd rfl
      · rw [herror]
        refine settles_of_error rfl hf ?_
        simp [hs]
    · rw [run_of_status h hs]
      refine settles_of_error rfl ⟨.status reply hs, clearBefore_status reply⟩ ?_
      simp [hs]

structure Worded (describe : F → String) (endpoint : String) : Prop where
  transport : ∀ reason, (Fault.transport reason).message describe = reason
  status : ∀ code, (Fault.status endpoint code).message describe =
    "Introspection of '" ++ endpoint ++ "' failed with HTTP " ++ Nat.repr code
  errors : ∀ errors, (Fault.reported endpoint errors).message describe =
    "Introspection of '" ++ endpoint ++ "' failed: " ++ errors.write
  data : (Fault.noData endpoint).message describe =
    "Introspection of '" ++ endpoint ++ "' returned no data"

/-- One request is posted to the endpoint, whatever comes of it. There is a configuration if and only
if every stage goes well, and it is that of the schema that the data of the reply is read as.
Otherwise the error is that of the first stage that fails, and nothing is told. The body is read if
and only if there is one and the status is a success. -/
theorem load_by_stages (query : String) (read : SchemaReader Json F) (endpoint : String)
    (headers : List (String × String)) (answer : Endpoint) :
    ((load query read endpoint headers).run answer).requests = [request query endpoint headers] ∧
    (request query endpoint headers).method = "POST" ∧
    (request query endpoint headers).url = endpoint ∧
    Settles read endpoint (answer (request query endpoint headers))
      ((load query read endpoint headers).run answer) ∧
    ∀ describe : F → String, Worded describe endpoint := by
  have hrequests : ((load query read endpoint headers).run answer).requests =
      [request query endpoint headers] := by
    cases h : answer (request query endpoint headers) with
    | error reason => rw [run_of_error h]
    | ok reply =>
      by_cases hs : Successful reply
      · rw [run_of_success h hs]
      · rw [run_of_status h hs]
  refine ⟨hrequests, rfl, rfl, settles_run query read endpoint headers answer, fun describe => ?_⟩
  exact ⟨fun _ => rfl, fun _ => rfl, fun _ => rfl, rfl⟩

def replying (status : Nat) (body : String) : Endpoint := fun _ => .ok ⟨status, some body⟩

def colors : String :=
  "\x7b\"data\":\x7b\"__schema\":\x7b\"types\":[\x7b\"kind\":\"ENUM\",\"name\":\"Color\"," ++
    "\"enumValues\":[]\x7d]\x7d\x7d\x7d"

def introspect (endpoint : String) : Exchange (Except (Fault Introspection.Fault) Loaded) :=
  load Introspection.query Introspection.readSchema endpoint []

theorem load_by_stages_colors :
    (∃ reply s, replying 200 colors (request Introspection.query "here" []) = .ok reply ∧
      Describes Introspection.readSchema reply s ∧ s.flatten.types = Table.empty ∧
      s.notices =
        ["[gqlconf] The enum \"Color\" is not part of the configuration graph, skipped"]) ∧
    ∃ stage, BreaksFirst Introspection.readSchema "here"
      (replying 503 colors (request Introspection.query "here" [])) stage (.status "here" 503) := by
  obtain ⟨-, -, -, hgood, -⟩ :=
    load_by_stages Introspection.query Introspection.readSchema "here" [] (replying 200 colors)
  obtain ⟨-, -, -, hbad, -⟩ :=
    load_by_stages Introspection.query Introspection.readSchema "here" [] (replying 503 colors)
  have hresult : ((introspect "here").run (replying 200 colors)).result.toOption =
      some ⟨⟨Table.empty, {}⟩,
        ["[gqlconf] The enum \"Color\" is not part of the configuration graph, skipped"]⟩ := by
    decide +kernel
  refine ⟨?_, (hbad.failed _).mp rfl⟩
  cases hr : ((introspect "here").run (replying 200 colors)).result with
  | error fault =>
    rw [hr] at hresult
    cases hresult
  | ok loaded =>
    obtain ⟨reply, s, hreply, hs, hconfig, hnotices⟩ := (hgood.loaded loaded).mp hr
    rw [hr] at hresult
    obtain rfl := Option.some.inj hresult
    exact ⟨reply, s, hreply, hs, by rw [← hconfig], hnotices.symm⟩

example : (fault? ((introspect "here").run
    (replying 200 "\x7b\"data\":1,\"errors\":null\x7d")).result).map
      (Fault.message Introspection.Fault.message) =
        some "Introspection of 'here' failed: null" := by decide +kernel

end Runs

end Remote
end TypeGraph
