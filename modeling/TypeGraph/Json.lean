import TypeGraph.Binary64
import TypeGraph.Table.IndexFirst

/-! JSON values. -/

namespace TypeGraph

/-- A place in the text of a JSON string: a character, or half of a surrogate pair whose
other half is not beside it. -/
inductive Glyph where
  | char (c : Char)
  | half (unit : Nat)
  deriving DecidableEq, Inhabited

abbrev LooseText := List Glyph

namespace LooseText

def ofChars (cs : List Char) : LooseText := cs.map Glyph.char

def ofString (s : String) : LooseText := ofChars s.toList

def toChars? (t : LooseText) : Option (List Char) :=
  t.mapM fun
    | .char c => some c
    | .half _ => none

def toString? (t : LooseText) : Option String := (toChars? t).map String.ofList

def toText (t : LooseText) : String :=
  String.ofList (t.map fun
    | .char c => c
    | .half _ => '\uFFFD')

def index? (t : LooseText) : Option Nat := (toChars? t).bind Table.index?

end LooseText

/-- A JSON value. The members of an object are kept in record order. -/
inductive Json where
  | null
  | bool (value : Bool)
  | number (value : Binary64)
  | string (text : LooseText)
  | array (items : List Json)
  | object (members : List (LooseText × Json))
  deriving Inhabited

namespace Json

def ofString (s : String) : Json := .string (LooseText.ofString s)

def ofInt (n : Int) : Json := .number (Binary64.ofInt n)

/-- The object written by a list of members: a repeated key keeps its first place and takes
its last value, and keys that spell an index come first. -/
def ofMembers (members : List (LooseText × Json)) : Json :=
  .object ((Table.ofList members).indexFirst LooseText.index?).entries

def member? (key : String) : Json → Option Json
  | .object members => Table.find? (LooseText.ofString key) members
  | _ => none

def isEmptyValue : Json → Bool
  | .null => true
  | .bool b => !b
  | .number x => x.isZero
  | .string t => t.isEmpty
  | _ => false

mutual

def depth : Json → Nat
  | .array items => depthOfItems items + 1
  | .object members => depthOfMembers members + 1
  | _ => 1

def depthOfItems : List Json → Nat
  | [] => 0
  | j :: rest => max j.depth (depthOfItems rest)

def depthOfMembers : List (LooseText × Json) → Nat
  | [] => 0
  | (_, j) :: rest => max j.depth (depthOfMembers rest)

end

end Json
end TypeGraph
