import TypeGraph.Loading
import TypeGraph.Renaming.Apply

/-! The listing of a schema: its placeholder names are replaced by readable ones, and then
every field is written with its type. -/

namespace TypeGraph.Listing

def names : Renaming :=
  Renaming.ofRecord [("Query", "PostQuery"), ("A", "User"), ("B", "InputUser"),
    ("Mutation", "UserMutation")]

def sample : String :=
  "\n".intercalate [
    "schema \x7b", "  query: Query", "\x7d", "",
    "type A \x7b", "  id: ID!", "  name: String", "\x7d", "",
    "type Post \x7b", "  id: ID!", "  title: String", "  body: String", "  author: A", "\x7d", "",
    "input B \x7b", "  name: String", "  username: String", "\x7d", "",
    "type Query \x7b", "  posts: [Post]", "  post(id: ID!): Post", "\x7d", "",
    "type Mutation \x7b", "  createUser(user: B!): A", "\x7d", ""]

structure Report where
  output : List String
  errors : List String
  exitCode : Nat

def argumentsText (args : Table String Reference) : String :=
  match args.entries with
  | [] => ""
  | es => "(" ++ ", ".intercalate (es.map fun (name, r) => name ++ ": " ++ r.render) ++ ")"

def fieldLine (type name : String) (field : Field) : String :=
  type ++ "." ++ name ++ argumentsText field.args ++ ": " ++ field.type.render

def rootLine (c : Config) : String := "query root: " ++ c.roots.query.getD "(none)"

def lines (c : Config) : List String :=
  rootLine c :: c.types.entries.flatMap fun (type, fields) =>
    fields.entries.map fun (name, field) => fieldLine type name field

def report (outcome : Validation MissingType Renamed) : Report :=
  match outcome with
  | .success renamed => ⟨lines renamed.config, [], 0⟩
  | .failure e => ⟨[], e.messages.map MissingType.message, 1⟩

structure Listed where
  report : Report
  notices : List String

/-- Lists the schema that a text describes, whatever reads it. -/
def ofText {F : Type} (read : SchemaReader String F) (sdl : String) : Except F Listed := do
  let loaded ← Loaded.ofText read sdl
  let outcome := names.apply loaded.config
  return ⟨report outcome, loaded.notices ++ Renaming.noticesOf outcome⟩

end TypeGraph.Listing
