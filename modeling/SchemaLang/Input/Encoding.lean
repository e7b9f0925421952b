import SchemaLang.Expr.Encoding
import SchemaLang.Input.Basic
import SchemaLang.Token.Encoding

namespace SchemaLang

def InputType.toJson : InputType → Json
  | .primitive type => .obj [("kind", .str "primitive"), ("of", .str type.name)]
  | .array => .obj [("kind", .str "array")]
  | .hash => .obj [("kind", .str "hash")]
  | .element type => .obj [("kind", .str "element"), ("of", type.toJson)]
  | .index => .obj [("kind", .str "index")]

def Bound.toJson : Bound → Json
  | .int n => .int n.toInt
  | .float x => .ofFloat x

def Domain.toJson : Domain → Json
  | .range min max exclusive =>
    .obj [
      ("kind", .str "range"),
      ("min", min.toJson),
      ("max", max.toJson),
      ("exclusive", .bool exclusive)]
  | .values vs => .obj [("kind", .str "values"), ("values", .arr (vs.map Literal.toJson))]

namespace Input

mutual

/-- An input as JSON. What it does not have is left out. -/
def toJson : Input → Json
  | ⟨name, type, domain, children, accessMode, index, location⟩ =>
    let below := listToJson children
    .obj (
      [("name", .str name), ("type", type.toJson)] ++
      Json.optional "domain" (domain.map Domain.toJson) ++
      Json.optional "children" (if below.isEmpty then none else some (.arr below)) ++
      Json.optional "access_mode" (accessMode.map (.str ·.name)) ++
      Json.optional "index" (index.map .str) ++
      [("loc", location.toJson)])

def listToJson : List Input → List Json
  | [] => []
  | input :: more => toJson input :: listToJson more

end

end Input

end SchemaLang
