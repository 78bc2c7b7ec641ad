import TypeGraph.Name
import TypeGraph.Text

/-! References to types, such as `Post`, `[Post]` and `[ID!]!`: reading and rendering. -/

namespace TypeGraph

/-- A reference to a type. Whether the items of a list are required is not kept. -/
structure Reference where
  target : String
  list : Bool
  required : Bool
  deriving DecidableEq, Inhabited

namespace Reference

def render (r : Reference) : String :=
  let inner := if r.list then "[" ++ r.target ++ "]" else r.target
  if r.required then inner ++ "!" else inner

/-- Which marks stand behind a name: one before the closing bracket, the bracket, and one behind
it. -/
structure Marks where
  inner : Bool
  closed : Bool
  outer : Bool
  deriving DecidableEq

def optional (mark : Char) (cs : List Char) : Bool × List Char :=
  match Text.trimLeft cs with
  | [] => (false, [])
  | c :: rest => if c = mark then (true, rest) else (false, c :: rest)

/-- Any of the marks may be missing, but nothing else may stand before the end. -/
def readMarks? (cs : List Char) : Option Marks :=
  let inner := optional '!' cs
  let closed := optional ']' inner.2
  let outer := optional '!' closed.2
  if outer.2 = [] then some ⟨inner.1, closed.1, outer.1⟩ else none

/-- A list has to be closed. Outside a list the only mark is the inner one; inside, that mark
belongs to the items and is dropped. -/
def ofMarks? (target : String) (list : Bool) (m : Marks) : Option Reference :=
  if list ≠ m.closed ∨ (list = false ∧ m.outer = true) then none
  else some ⟨target, list, if list then m.outer else m.inner⟩

def readBody? (list : Bool) (cs : List Char) : Option Reference :=
  let body := Text.trimLeft cs
  let name := body.takeWhile isNameChar
  if IsName name then
    (readMarks? (body.dropWhile isNameChar)).bind (ofMarks? (String.ofList name) list)
  else none

def read? : List Char → Option Reference
  | '[' :: cs => readBody? true cs
  | cs => readBody? false cs

def parse? (text : String) : Option Reference := read? (Text.trim text.toList)

def mapTarget (f : String → String) (r : Reference) : Reference := { r with target := f r.target }

end Reference

structure IllegalReference where
  text : String
  deriving DecidableEq

namespace IllegalReference

def message (e : IllegalReference) : String := "Illegal type reference '" ++ e.text ++ "'"

end IllegalReference

namespace Reference

def parse (text : String) : Except IllegalReference Reference :=
  match parse? text with
  | some r => .ok r
  | none => .error ⟨text⟩

end Reference
end TypeGraph
