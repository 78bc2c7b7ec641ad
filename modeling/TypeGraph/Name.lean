/-! Names: a letter or underscore, then letters, digits and underscores. -/

namespace TypeGraph

def isNameStart (c : Char) : Bool := c.isAlpha || c == '_'

def isNameChar (c : Char) : Bool := c.isAlphanum || c == '_'

def IsName : List Char → Prop
  | [] => False
  | c :: cs => isNameStart c ∧ cs.all isNameChar

instance : DecidablePred IsName
  | [] => inferInstanceAs (Decidable False)
  | _ :: _ => inferInstanceAs (Decidable (_ ∧ _))

@[ext]
structure Name where
  text : String
  spelled : IsName text.toList
  deriving DecidableEq

namespace Name

def ofString? (s : String) : Option Name := if h : IsName s.toList then some ⟨s, h⟩ else none

def ofChars? (cs : List Char) : Option Name := ofString? (String.ofList cs)

theorem text_inj {m n : Name} (h : m.text = n.text) : m = n := Name.ext h

instance : ToString Name := ⟨text⟩

end Name
end TypeGraph
