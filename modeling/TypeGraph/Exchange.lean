import TypeGraph.Json
import TypeGraph.Text

/-! Talks with an endpoint, described step by step so that they can be run against any
endpoint and their requests be counted. -/

namespace TypeGraph

structure Request where
  url : String
  method : String
  headers : Table String String
  body : List (String × Json)

def Request.sortedHeaders (r : Request) : List (String × String) :=
  r.headers.entries.mergeSort fun a b => Text.le16 a.1 b.1

structure Reply where
  status : Nat
  body : Option String

/-- A talk: sends a request and goes on with the status of the reply, or with the reason why
there is none; reads the body of the last reply; or ends. -/
inductive Exchange (α : Type) where
  | finish (result : α)
  | send (request : Request) (next : Except String Nat → Exchange α)
  | readBody (next : Option String → Exchange α)

abbrev Endpoint := Request → Except String Reply

structure Transcript (α : Type) where
  result : α
  requests : List Request
  bodyRead : Bool

namespace Exchange

variable {α : Type}

/-- Runs a talk that is at some reply. A body counts as read only if there is one. -/
def runAt (endpoint : Endpoint) : Option Reply → Exchange α → Transcript α
  | _, finish a => ⟨a, [], false⟩
  | _, send r next =>
    let t := match endpoint r with
      | .ok reply => runAt endpoint (some reply) (next (.ok reply.status))
      | .error reason => runAt endpoint none (next (.error reason))
    { t with requests := r :: t.requests }
  | reply, readBody next =>
    let body := reply.bind Reply.body
    let t := runAt endpoint reply (next body)
    { t with bodyRead := body.isSome || t.bodyRead }

def run (endpoint : Endpoint) (e : Exchange α) : Transcript α := runAt endpoint none e

end Exchange
end TypeGraph
