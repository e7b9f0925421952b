import SchemaLang.Json.Basic
import SchemaLang.Token.Basic

namespace SchemaLang

def Location.toJson (here : Location) : Json :=
  .obj [("line", .ofNat here.line), ("column", .ofNat here.column)]

/-- A token as JSON. The context is left out when there is none. -/
def Token.toJson (token : Token) : Json :=
  .obj (
    [("kind", .str token.kind.name),
      ("raw", .str token.raw),
      ("location", token.location.toJson)] ++
    Json.optional "context" (token.context.map (.str ·.name)))

end SchemaLang
