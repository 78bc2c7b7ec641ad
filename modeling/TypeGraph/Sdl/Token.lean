import TypeGraph.Name
import TypeGraph.Text

/-! The tokens of a schema document. -/

namespace TypeGraph.Sdl

/-- A token. Strings and floats are checked, but what they hold is not kept. -/
inductive Token where
  | mark (c : Char)
  | spread
  | name (name : Name)
  | int (value : Int)
  | float
  | string
  deriving DecidableEq

namespace Token

def isIgnored (c : Char) : Bool :=
  c == '\uFEFF' || c == '\t' || c == ' ' || c == ',' || c == '\n' || c == '\r'

def isMark (c : Char) : Bool := "!$&():=@[]\x7b|\x7d".toList.contains c

def skipComment (cs : List Char) : List Char := cs.dropWhile fun c => c != '\n' && c != '\r'

def isScalarValue (n : Nat) : Bool := n ≤ 0x10FFFF && !Text.isSurrogate n

def maxPointDigits : Nat := 8

/-- What follows a quoted string, given what follows its opening quote. Inside a code point
in braces, the number of digits so far and their value are carried along. -/
def skipString : Option (Nat × Nat) → List Char → Option (List Char)
  | _, [] => none
  | some (count, value), c :: rest =>
    if c = '\x7d' then
      if 0 < count ∧ count ≤ maxPointDigits ∧ isScalarValue value then skipString none rest
      else none
    else match Text.hexDigit? c with
      | some digit => skipString (some (count + 1, 16 * value + digit)) rest
      | none => none
  | none, '"' :: rest => some rest
  | none, '\\' :: 'u' :: '\x7b' :: rest => skipString (some (0, 0)) rest
  | none, '\\' :: 'u' :: a :: b :: c :: d :: rest =>
    match Text.hexValue? [a, b, c, d] with
    | none => none
    | some unit =>
      if Text.isSurrogate unit then
        match rest with
        | '\\' :: 'u' :: a :: b :: c :: d :: rest =>
          match Text.hexValue? [a, b, c, d] with
          | some low =>
            if Text.isHighSurrogate unit && Text.isLowSurrogate low then skipString none rest
            else none
          | none => none
        | _ => none
      else skipString none rest
  | none, '\\' :: c :: rest =>
    if "\"\\/bfnrt".toList.contains c then skipString none rest else none
  | none, c :: rest => if c == '\n' || c == '\r' then none else skipString none rest

def skipBlock : List Char → Option (List Char)
  | [] => none
  | '\\' :: '"' :: '"' :: '"' :: rest => skipBlock rest
  | '"' :: '"' :: '"' :: rest => some rest
  | _ :: rest => skipBlock rest

def endsNumber : List Char → Bool
  | [] => true
  | c :: _ => c != '.' && !isNameStart c

def fraction? : List Char → Option (Bool × List Char)
  | '.' :: rest => (Text.takeDigits? rest).map fun (_, rest) => (true, rest)
  | rest => some (false, rest)

def power? : List Char → Option (Bool × List Char)
  | 'e' :: '+' :: rest | 'e' :: '-' :: rest | 'E' :: '+' :: rest | 'E' :: '-' :: rest
  | 'e' :: rest | 'E' :: rest => (Text.takeDigits? rest).map fun (_, rest) => (true, rest)
  | rest => some (false, rest)

def number? (cs : List Char) : Option (Token × List Char) := do
  let (negative, cs) := match cs with
    | '-' :: rest => (true, rest)
    | rest => (false, rest)
  let (whole, cs) ← Text.takeWhole? cs
  let (point, cs) ← fraction? cs
  let (power, cs) ← power? cs
  if !endsNumber cs then none
  else if point || power then some (float, cs)
  else
    let size := Text.digitsValue whole
    some (int (if negative then -(size : Int) else size), cs)

def read? : List Char → Option (Token × List Char)
  | '.' :: '.' :: '.' :: rest => some (spread, rest)
  | '"' :: '"' :: '"' :: rest => (skipBlock rest).map (string, ·)
  | '"' :: rest => (skipString none rest).map (string, ·)
  | cs@(c :: rest) =>
    if isMark c then some (mark c, rest)
    else if isNameStart c then
      (Name.ofChars? (cs.takeWhile isNameChar)).map fun n => (name n, cs.dropWhile isNameChar)
    else if c.isDigit || c == '-' then number? cs
    else none
  | [] => none

def readAll : Nat → List Token → List Char → Option (List Token)
  | 0, _, _ => none
  | _ + 1, before, [] => some before.reverse
  | fuel + 1, before, c :: rest =>
    if isIgnored c then readAll fuel before rest
    else if c = '#' then readAll fuel before (skipComment rest)
    else match read? (c :: rest) with
      | some (token, rest) => readAll fuel (token :: before) rest
      | none => none

def ofChars? (cs : List Char) : Option (List Token) := readAll (cs.length + 1) [] cs

end Token
end TypeGraph.Sdl
