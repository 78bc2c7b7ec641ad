import TypeGraph.Json
import TypeGraph.Text

/-! Reading JSON text. -/

namespace TypeGraph.Json

def skipBlank (cs : List Char) : List Char :=
  cs.dropWhile fun c => c == ' ' || c == '\t' || c == '\n' || c == '\r'

def unitGlyph (unit : Nat) : Glyph :=
  if Text.isSurrogate unit then .half unit else .char (Char.ofNat unit)

def escaped? : Char → Option Char
  | '"' => some '"'
  | '\\' => some '\\'
  | '/' => some '/'
  | 'b' => some '\x08'
  | 'f' => some '\x0c'
  | 'n' => some '\n'
  | 'r' => some '\r'
  | 't' => some '\t'
  | _ => none

/-- Puts a glyph at the end of a text that is held in reverse; the halves of a surrogate
pair that meet become its character. -/
def push : LooseText → Glyph → LooseText
  | .half a :: before, .half b =>
    if Text.isHighSurrogate a && Text.isLowSurrogate b then
      .char (Text.joinSurrogates a b) :: before
    else .half b :: .half a :: before
  | before, g => g :: before

def readText (before : LooseText) : List Char → Option (LooseText × List Char)
  | [] => none
  | '"' :: rest => some (before.reverse, rest)
  | '\\' :: 'u' :: a :: b :: c :: d :: rest =>
    match Text.hexValue? [a, b, c, d] with
    | some unit => readText (push before (unitGlyph unit)) rest
    | none => none
  | '\\' :: c :: rest =>
    match escaped? c with
    | some c => readText (push before (.char c)) rest
    | none => none
  | c :: rest => if c.toNat < 0x20 then none else readText (push before (.char c)) rest

def readFraction : List Char → Option (List Char × List Char)
  | '.' :: rest => Text.takeDigits? rest
  | rest => some ([], rest)

def readPower : List Char → Option (Int × List Char)
  | [] => some (0, [])
  | e :: rest =>
    if e == 'e' || e == 'E' then
      let (negative, rest) := match rest with
        | '-' :: rest => (true, rest)
        | '+' :: rest => (false, rest)
        | rest => (false, rest)
      (Text.takeDigits? rest).map fun (digits, rest) =>
        let size := Text.digitsValue digits
        (if negative then -(size : Int) else size, rest)
    else some (0, e :: rest)

def readNumber (cs : List Char) : Option (Binary64 × List Char) := do
  let (negative, cs) := match cs with
    | '-' :: rest => (true, rest)
    | rest => (false, rest)
  let (whole, cs) ← Text.takeWhole? cs
  let (fraction, cs) ← readFraction cs
  let (power, cs) ← readPower cs
  let digits := Text.digitsValue (whole ++ fraction)
  return (Binary64.ofDecimal negative digits (power - fraction.length), cs)

mutual

def readValue : Nat → List Char → Option (Json × List Char)
  | 0, _ => none
  | fuel + 1, cs =>
    match skipBlank cs with
    | 'n' :: 'u' :: 'l' :: 'l' :: rest => some (.null, rest)
    | 't' :: 'r' :: 'u' :: 'e' :: rest => some (.bool true, rest)
    | 'f' :: 'a' :: 'l' :: 's' :: 'e' :: rest => some (.bool false, rest)
    | '"' :: rest => (readText [] rest).map fun (text, rest) => (.string text, rest)
    | '[' :: rest =>
      match skipBlank rest with
      | ']' :: rest => some (.array [], rest)
      | rest => (readItems fuel rest).map fun (items, rest) => (.array items, rest)
    | '\x7b' :: rest =>
      match skipBlank rest with
      | '\x7d' :: rest => some (.object [], rest)
      | rest => (readMembers fuel rest).map fun (members, rest) => (ofMembers members, rest)
    | rest => (readNumber rest).map fun (x, rest) => (.number x, rest)

def readItems : Nat → List Char → Option (List Json × List Char)
  | 0, _ => none
  | fuel + 1, cs => do
    let (item, rest) ← readValue fuel cs
    match skipBlank rest with
    | ',' :: rest =>
      let (items, rest) ← readItems fuel rest
      return (item :: items, rest)
    | ']' :: rest => return ([item], rest)
    | _ => none

def readMembers : Nat → List Char → Option (List (LooseText × Json) × List Char)
  | 0, _ => none
  | fuel + 1, cs => do
    match skipBlank cs with
    | '"' :: rest =>
      let (key, rest) ← readText [] rest
      match skipBlank rest with
      | ':' :: rest =>
        let (value, rest) ← readValue fuel rest
        match skipBlank rest with
        | ',' :: rest =>
          let (members, rest) ← readMembers fuel rest
          return ((key, value) :: members, rest)
        | '\x7d' :: rest => return ([(key, value)], rest)
        | _ => none
      | _ => none
    | _ => none

end

/-- Reads a text that holds one value and blanks around it. Two calls for each character
are enough. -/
def ofChars? (cs : List Char) : Option Json :=
  match readValue (2 * cs.length + 2) cs with
  | some (value, rest) => if (skipBlank rest).isEmpty then some value else none
  | none => none

def parse? (text : String) : Option Json := ofChars? text.toList

end TypeGraph.Json
