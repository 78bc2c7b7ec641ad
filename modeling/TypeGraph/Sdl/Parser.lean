import TypeGraph.Sdl.Document
import TypeGraph.Sdl.Token

/-! Reading schema documents: the grammar of definitions, from tokens. -/

namespace TypeGraph.Sdl

/-- Takes tokens from the front, or finds that they do not fit. The number that is read from
the side is greater than that of all tokens, so that no repetition takes as many steps. -/
abbrev Parser := ReaderT Nat (StateT (List Token) Option)

namespace Parser

variable {α : Type}

def next : Parser Token := do
  match ← get with
  | t :: rest =>
    set rest
    return t
  | [] => failure

def peek? : Parser (Option Token) := return (← get).head?

def accept (t : Token) : Parser Bool := do
  if (← peek?) = some t then
    let _ ← next
    return true
  else return false

def expect (t : Token) : Parser Unit := do
  if ← accept t then return () else failure

def mark (c : Char) : Parser Unit := expect (.mark c)

def acceptMark (c : Char) : Parser Bool := accept (.mark c)

def name : Parser Name := do
  match ← next with
  | .name n => return n
  | _ => failure

def peekWord? : Parser (Option String) := do
  match ← peek? with
  | some (.name n) => return some n.text
  | _ => return none

def acceptWord (word : String) : Parser Bool := do
  if (← peekWord?) = some word then
    let _ ← next
    return true
  else return false

def word (w : String) : Parser Unit := do
  if ← acceptWord w then return () else failure

def upTo (close : Char) (item : Parser α) : Nat → Parser (List α)
  | 0 => failure
  | fuel + 1 => do
    if ← acceptMark close then return []
    else
      let first ← item
      return first :: (← upTo close item fuel)

def someUpTo (close : Char) (item : Parser α) : Parser (List α) := do
  let first ← item
  return first :: (← upTo close item (← read))

def block (openMark close : Char) (item : Parser α) : Parser (List α) := do
  mark openMark
  someUpTo close item

def optionalBlock (openMark close : Char) (item : Parser α) : Parser (List α) := do
  if ← acceptMark openMark then someUpTo close item else return []

def separated (mark : Char) (item : Parser α) : Nat → Parser (List α)
  | 0 => failure
  | fuel + 1 => do
    if ← acceptMark mark then
      let first ← item
      return first :: (← separated mark item fuel)
    else return []

def delimited (mark : Char) (item : Parser α) : Parser (List α) := do
  let _ ← acceptMark mark
  let first ← item
  return first :: (← separated mark item (← read))

def description : Parser Bool := accept .string

-- Literals and types

def literalWithin (const : Bool) : Nat → Parser Literal
  | 0 => failure
  | fuel + 1 => do
    match ← next with
    | .int n => return .int n
    | .float => return .float
    | .string => return .string
    | .mark '$' =>
      if const then failure
      else
        let _ ← name
        return .variable
    | .name n =>
      match n.text with
      | "true" | "false" => return .boolean
      | "null" => return .null
      | _ => return .enum n
    | .mark '[' =>
      return .list (← upTo ']' (literalWithin const fuel) (← read))
    | .mark '\x7b' =>
      let field : Parser (Name × Literal) := do
        let n ← name
        mark ':'
        return (n, ← literalWithin const fuel)
      return .object (← upTo '\x7d' field (← read))
    | _ => failure

def literal (const : Bool) : Parser Literal := do literalWithin const (← read)

def typeWithin : Nat → Parser TypeExpr
  | 0 => failure
  | fuel + 1 => do
    let type ← if ← acceptMark '[' then do
        let item ← typeWithin fuel
        mark ']'
        pure (TypeExpr.list item)
      else TypeExpr.named <$> name
    if ← acceptMark '!' then return .nonNull type else return type

def type : Parser TypeExpr := do typeWithin (← read)

def arguments (const : Bool) : Parser Arguments :=
  optionalBlock '(' ')' do
    let n ← name
    mark ':'
    return (n, ← literal const)

def applicationsWithin (const : Bool) : Nat → Parser (List Application)
  | 0 => failure
  | fuel + 1 => do
    if ← acceptMark '@' then
      let n ← name
      let args ← arguments const
      return ⟨n, args⟩ :: (← applicationsWithin const fuel)
    else return []

def applications (const : Bool) : Parser (List Application) := do
  applicationsWithin const (← read)

def default? : Parser (Option Literal) := do
  if ← acceptMark '=' then return some (← literal true) else return none

-- Type definitions

def inputValue : Parser InputValue := do
  let _ ← description
  let n ← name
  mark ':'
  let t ← type
  let d ← default?
  return ⟨n, t, d, ← applications true⟩

def argumentDefinitions : Parser (List InputValue) := optionalBlock '(' ')' inputValue

def fieldDefinition : Parser FieldDefinition := do
  let _ ← description
  let n ← name
  let args ← argumentDefinitions
  mark ':'
  let t ← type
  return ⟨n, args, t, ← applications true⟩

def enumValue : Parser EnumValue := do
  let _ ← description
  let n ← name
  if ["true", "false", "null"].contains n.text then failure
  else return ⟨n, ← applications true⟩

def implemented : Parser (List Name) := do
  if ← acceptWord "implements" then delimited '&' name else return []

def typeItem (w : String) : Parser TypeItem := do
  word w
  let n ← name
  match w with
  | "scalar" => return ⟨n, ← applications true, .scalar⟩
  | "type" | "interface" =>
    let interfaces ← implemented
    let directives ← applications true
    let fields ← optionalBlock '\x7b' '\x7d' fieldDefinition
    return ⟨n, directives,
      if w = "type" then .object interfaces fields else .interface interfaces fields⟩
  | "union" =>
    let directives ← applications true
    let members ← if ← acceptMark '=' then delimited '|' name else pure []
    return ⟨n, directives, .union members⟩
  | "enum" =>
    let directives ← applications true
    return ⟨n, directives, .enum (← optionalBlock '\x7b' '\x7d' enumValue)⟩
  | "input" =>
    let directives ← applications true
    return ⟨n, directives, .input (← optionalBlock '\x7b' '\x7d' inputValue)⟩
  | _ => failure

def typeExtension (w : String) : Parser TypeItem := do
  let t ← typeItem w
  if t.directives.isEmpty && t.body.isEmpty then failure else return t

def operationKind : Parser Operation := do
  let n ← name
  match Operation.all.find? fun k => k.label = n.text with
  | some k => return k
  | none => failure

def rootDefinition : Parser (Operation × Name) := do
  let k ← operationKind
  mark ':'
  return (k, ← name)

def schemaItem : Parser SchemaItem := do
  word "schema"
  let directives ← applications true
  return ⟨directives, ← block '\x7b' '\x7d' rootDefinition⟩

def schemaExtension : Parser SchemaItem := do
  word "schema"
  let directives ← applications true
  let roots ← optionalBlock '\x7b' '\x7d' rootDefinition
  if directives.isEmpty && roots.isEmpty then failure else return ⟨directives, roots⟩

def location : Parser Location := do
  match Location.ofName? (← name) with
  | some l => return l
  | none => failure

def directiveItem : Parser DirectiveItem := do
  word "directive"
  mark '@'
  let n ← name
  let args ← argumentDefinitions
  let repeatable ← acceptWord "repeatable"
  word "on"
  return ⟨n, args, repeatable, ← delimited '|' location⟩

-- Executable definitions

def site (location : Location) (const : Bool) : Parser Mentions := do
  return { sites := [⟨location, ← applications const⟩] }

/-- The name of a fragment, which is not the word before its type. -/
def fragmentName : Parser Name := do
  let n ← name
  if n.text = "on" then failure else return n

def typeCondition : Parser Mentions := do return { types := [← name] }

mutual

def selections : Nat → Parser Mentions
  | 0 => failure
  | fuel + 1 => do
    return Mentions.join (← block '\x7b' '\x7d' (selection fuel))

def selection : Nat → Parser Mentions
  | 0 => failure
  | fuel + 1 => do
    if ← accept .spread then
      match ← peekWord? with
      | some "on" =>
        word "on"
        let condition ← typeCondition
        let directives ← site .inlineFragment false
        return condition ++ directives ++ (← selections fuel)
      | some _ =>
        let _ ← fragmentName
        site .fragmentSpread false
      | none =>
        let directives ← site .inlineFragment false
        return directives ++ (← selections fuel)
    else
      let _ ← name
      if ← acceptMark ':' then
        let _ ← name
      let args ← arguments false
      let directives ← site .field false
      let own : Mentions := { arguments := [args] }
      if (← peek?) = some (.mark '\x7b') then
        return own ++ directives ++ (← selections fuel)
      else return own ++ directives

end

def selectionSet : Parser Mentions := do selections (2 * (← read))

def variableDefinition : Parser Mentions := do
  let _ ← description
  mark '$'
  let _ ← name
  mark ':'
  let t ← type
  let d ← default?
  return { types := [t.name], defaults := d.toList } ++ (← site .variableDefinition true)

def operationItem : Parser Mentions := do
  let k ← operationKind
  if (← peekWord?).isSome then
    let _ ← name
  let vars ← optionalBlock '(' ')' variableDefinition
  let directives ← site (.operation k) false
  return Mentions.join vars ++ directives ++ (← selectionSet)

def fragmentItem : Parser Mentions := do
  word "fragment"
  let _ ← fragmentName
  word "on"
  let condition ← typeCondition
  let directives ← site .fragmentDefinition false
  return condition ++ directives ++ (← selectionSet)

-- Documents

def isTypeWord (w : String) : Bool :=
  ["scalar", "type", "interface", "union", "enum", "input"].contains w

def extension : Parser Item := do
  word "extend"
  match ← peekWord? with
  | some "schema" => return .extendSchema (← schemaExtension)
  | some w => return .extendType (← typeExtension w)
  | none => failure

def item : Parser Item := do
  if (← peek?) = some (.mark '\x7b') then return .executable (← selectionSet)
  else
    let described ← description
    match ← peekWord? with
    | some "schema" => return .schema (← schemaItem)
    | some "directive" => return .directive (← directiveItem)
    | some "fragment" => return .executable (← fragmentItem)
    | some "extend" => if described then failure else extension
    | some w =>
      if isTypeWord w then return .type (← typeItem w) else return .executable (← operationItem)
    | none => failure

def itemsWithin : Nat → Parser (List Item)
  | 0 => failure
  | fuel + 1 => do
    if (← get).isEmpty then return []
    else
      let first ← item
      return first :: (← itemsWithin fuel)

def document : Parser Document := do
  let first ← item
  return first :: (← itemsWithin (← read))

end Parser

def Parser.parse? {α : Type} (p : Parser α) (cs : List Char) : Option α := do
  let tokens ← Token.ofChars? cs
  match ← (p.run (tokens.length + 1)).run tokens with
  | (a, []) => return a
  | _ => none

def Document.parse? (text : String) : Option Document := Parser.document.parse? text.toList

def parseLiteral? (cs : List Char) : Option Literal := (Parser.literal false).parse? cs

end TypeGraph.Sdl
