import TypeGraph.Binary64.Shortest
import TypeGraph.Json

/-! JSON text: values written without blanks, and values read as plain text. -/

namespace TypeGraph.Json

def hex4 (n : Nat) : String :=
  let digits := Nat.toDigits 16 n
  String.ofList (List.replicate (4 - digits.length) '0' ++ digits)

def escape (c : Char) : String :=
  match c with
  | '"' => "\\\""
  | '\\' => "\\\\"
  | '\x08' => "\\b"
  | '\t' => "\\t"
  | '\n' => "\\n"
  | '\x0c' => "\\f"
  | '\r' => "\\r"
  | c => if c.toNat < 0x20 then "\\u" ++ hex4 c.toNat else String.singleton c

def writeGlyph : Glyph → String
  | .char c => escape c
  | .half unit => "\\u" ++ hex4 unit

def quote (t : LooseText) : String := "\"" ++ String.join (t.map writeGlyph) ++ "\""

mutual

/-- The text of a value; a number too large for the format is written as null. -/
def write : Json → String
  | .null => "null"
  | .bool b => if b then "true" else "false"
  | .number x =>
    match x.magnitude with
    | .infinite => "null"
    | .finite _ _ => x.text ""
  | .string t => quote t
  | .array items => "[" ++ ",".intercalate (writeItems items) ++ "]"
  | .object members => "\x7b" ++ ",".intercalate (writeMembers members) ++ "\x7d"

def writeItems : List Json → List String
  | [] => []
  | j :: rest => j.write :: writeItems rest

def writeMembers : List (LooseText × Json) → List String
  | [] => []
  | (key, j) :: rest => (quote key ++ ":" ++ j.write) :: writeMembers rest

end

mutual

/-- A value read as plain text. The items of an array are joined by commas, null items
being left blank. An object has a fixed text, which a member `toString` takes away; an array
that holds such an object, at any depth, has no text either. -/
def plainText? : Json → Option LooseText
  | .null => some (LooseText.ofString "null")
  | .bool b => some (LooseText.ofString (if b then "true" else "false"))
  | .number x => some (LooseText.ofString (x.text "Infinity"))
  | .string t => some t
  | .array items => (itemTexts? items).map [Glyph.char ','].intercalate
  | .object members =>
    match (Json.object members).member? "toString" with
    | some _ => none
    | none => some (LooseText.ofString "[object Object]")

def itemTexts? : List Json → Option (List LooseText)
  | [] => some []
  | .null :: rest => (itemTexts? rest).map ([] :: ·)
  | j :: rest =>
    match j.plainText?, itemTexts? rest with
    | some t, some ts => some (t :: ts)
    | _, _ => none

end

end TypeGraph.Json
