import TypeGraph.Exchange
import TypeGraph.Json.Reader
import TypeGraph.Json.Writer
import TypeGraph.Schema.Flatten

/-! Loading configurations: from the text of a schema, from a file, or from an endpoint that
describes its own schema. How a schema is read is given from outside. -/

namespace TypeGraph

abbrev SchemaReader (Source Fault : Type) := Source → Except Fault Schema

variable {F : Type}

def Loaded.ofText (read : SchemaReader String F) (text : String) : Except F Loaded :=
  (read text).map Loaded.ofSchema

namespace Local

inductive Fault (F : Type) where
  | noFile (path : String)
  | schema (fault : F)

abbrev Files := String → Option String

def load (read : SchemaReader String F) (files : Files) (path : String) :
    Except (Fault F) Loaded :=
  match files path with
  | none => .error (.noFile path)
  | some text => (Loaded.ofText read text).mapError Fault.schema

end Local

namespace Remote

/-- Why an endpoint gives no schema, in the order in which it is found out. -/
inductive Fault (F : Type) where
  | transport (reason : String)
  | status (endpoint : String) (code : Nat)
  | notJson
  | nullBody
  | reported (endpoint : String) (errors : Json)
  | noData (endpoint : String)
  | schema (fault : F)

def Fault.message (describe : F → String) : Fault F → String
  | transport reason => reason
  | status endpoint code =>
    "Introspection of '" ++ endpoint ++ "' failed with HTTP " ++ Nat.repr code
  | notJson => "The reply is no JSON text."
  | nullBody => "The reply is null."
  | reported endpoint errors =>
    "Introspection of '" ++ endpoint ++ "' failed: " ++ errors.write
  | noData endpoint => "Introspection of '" ++ endpoint ++ "' returned no data"
  | schema fault => describe fault

/-- JSON is asked for and sent, unless a header of the very same spelling says otherwise. -/
def defaultHeaders : Table String String :=
  Table.ofList [("Accept", "application/json"), ("Content-Type", "application/json")]

def request (query endpoint : String) (headers : List (String × String)) : Request :=
  ⟨endpoint, "POST", defaultHeaders.insertAll (Table.ofRecord headers).entries,
    [("query", Json.ofString query)]⟩

def isSuccess (status : Nat) : Bool := 200 ≤ status && status < 300

/-- One or two byte order marks at the front of a body are no part of its text; a third one
is. -/
def dropMarks : List Char → List Char
  | '\uFEFF' :: '\uFEFF' :: rest => rest
  | '\uFEFF' :: rest => rest
  | cs => cs

/-- Errors come before data, even when they are null or empty. -/
def dataOf (endpoint : String) (reply : Json) : Except (Fault F) Json :=
  match reply with
  | .null => .error .nullBody
  | reply =>
    match reply.member? "errors", reply.member? "data" with
    | some errors, _ => .error (.reported endpoint errors)
    | none, none => .error (.noData endpoint)
    | none, some data => if data.isEmptyValue then .error (.noData endpoint) else .ok data

def valueOf? (body : Option String) : Option Json :=
  Json.ofChars? (dropMarks (body.getD "").toList)

def schemaOf (read : SchemaReader Json F) (endpoint : String) (body : Option String) :
    Except (Fault F) Schema :=
  match valueOf? body with
  | none => .error .notJson
  | some reply =>
    match dataOf endpoint reply with
    | .error e => .error e
    | .ok data =>
      match read data with
      | .ok s => .ok s
      | .error e => .error (.schema e)

/-- Asks an endpoint for its schema. The body is not read unless the status is a success. -/
def load (query : String) (read : SchemaReader Json F) (endpoint : String)
    (headers : List (String × String)) : Exchange (Except (Fault F) Loaded) :=
  .send (request query endpoint headers) fun
    | .error reason => .finish (.error (.transport reason))
    | .ok status =>
      if isSuccess status then
        .readBody fun body => .finish ((schemaOf read endpoint body).map Loaded.ofSchema)
      else .finish (.error (.status endpoint status))

def noticesOf (outcome : Except (Fault F) Loaded) : List String :=
  match outcome with
  | .ok loaded => loaded.notices
  | .error _ => []

end Remote
end TypeGraph
