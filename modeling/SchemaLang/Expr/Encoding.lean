import SchemaLang.Expr.Basic
import SchemaLang.Json.Basic

namespace SchemaLang

def Literal.toJson : Literal → Json
  | .integer n => .obj [("type", .str "integer"), ("value", .int n.toInt)]
  | .float x => .obj [("type", .str "float"), ("value", .ofFloat x)]
  | .string s => .obj [("type", .str "string"), ("value", .str s)]
  | .boolean b => .obj [("type", .str "boolean"), ("value", .bool b)]
  | .symbol s => .obj [("type", .str "symbol"), ("value", .str s)]

namespace Expr

/-- A node of the tree: its tag, then its fields. -/
def node (tag : String) (fields : List (String × Json)) : Json :=
  .obj (("node", .str tag) :: fields)

def literalNode (value : Literal) : Json := node "literal" [("value", value.toJson)]

mutual

/-- An expression as JSON. Keyed arguments of a call are left out when there are none. -/
def toJson : Expr → Json
  | .literal value => literalNode value
  | .input name => node "input_reference" [("name", .str name)]
  | .inputPath path => node "input_element_reference" [("path", .arr (path.map .str))]
  | .reference name => node "declaration_reference" [("name", .str name)]
  | .call function args [] =>
    node "call" [("function", .str function), ("args", .arr (listToJson args))]
  | .call function args (opt :: opts) =>
    node "call" [
      ("function", .str function),
      ("args", .arr (listToJson args)),
      ("opts", .arr (keyedToJson (opt :: opts)))]
  | .array elements => node "array" [("elements", .arr (listToJson elements))]
  | .hash pairs => node "hash" [("pairs", .arr (pairsToJson pairs))]
  | .cascade cases => node "cascade" [("cases", .arr (casesToJson cases))]
  | .index name => node "index_reference" [("name", .str name)]
  | .importCall name args =>
    node "import_call" [("name", .str name), ("args", .arr (keyedToJson args))]

def listToJson : List Expr → List Json
  | [] => []
  | e :: es => toJson e :: listToJson es

def keyedToJson : List (String × Expr) → List Json
  | [] => []
  | (key, e) :: es => .arr [.str key, toJson e] :: keyedToJson es

def pairsToJson : List (Literal × Expr) → List Json
  | [] => []
  | (key, e) :: es => .arr [literalNode key, toJson e] :: pairsToJson es

def casesToJson : List (Expr × Expr) → List Json
  | [] => []
  | (condition, result) :: es =>
    .obj [("condition", toJson condition), ("result", toJson result)] :: casesToJson es

end

end Expr

end SchemaLang
