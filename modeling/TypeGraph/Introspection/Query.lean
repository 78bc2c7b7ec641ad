/-! The query that asks an endpoint for its schema. -/

namespace TypeGraph.Introspection

def braces (selections : List String) : String :=
  "\x7b " ++ " ".intercalate selections ++ " \x7d"

def typeReference : Nat → List String
  | 0 => ["kind", "name"]
  | n + 1 => ["kind", "name", "ofType " ++ braces (typeReference n)]

def wrapperLimit : Nat := 9

def schemaSelection : String :=
  braces ["queryType " ++ braces ["name", "kind"], "mutationType " ++ braces ["name", "kind"],
    "subscriptionType " ++ braces ["name", "kind"], "types " ++ braces ["...FullType"],
    "directives " ++ braces ["name", "description", "locations",
      "args " ++ braces ["...InputValue"]]]

def typeFragment : String :=
  "fragment FullType on __Type " ++ braces ["kind", "name", "description",
    "fields(includeDeprecated: true) " ++ braces ["name", "description",
      "args " ++ braces ["...InputValue"], "type " ++ braces ["...TypeRef"], "isDeprecated",
      "deprecationReason"],
    "inputFields " ++ braces ["...InputValue"], "interfaces " ++ braces ["...TypeRef"],
    "enumValues(includeDeprecated: true) " ++ braces ["name", "description", "isDeprecated",
      "deprecationReason"],
    "possibleTypes " ++ braces ["...TypeRef"]]

def inputFragment : String :=
  "fragment InputValue on __InputValue " ++ braces ["name", "description",
    "type " ++ braces ["...TypeRef"], "defaultValue"]

def referenceFragment : String :=
  "fragment TypeRef on __Type " ++ braces (typeReference wrapperLimit)

def query : String :=
  "\n".intercalate ["query IntrospectionQuery " ++ braces ["__schema " ++ schemaSelection],
    typeFragment, inputFragment, referenceFragment]

end TypeGraph.Introspection
