import SchemaLang.Input.Encoding
import SchemaLang.Schema.Basic

namespace SchemaLang

def Value.toJson (value : Value) : Json :=
  .obj [
    ("name", .str value.name),
    ("expression", value.expression.toJson),
    ("inline", .bool value.inline),
    ("loc", value.location.toJson)]

def Trait.toJson (decl : Trait) : Json :=
  .obj [
    ("name", .str decl.name),
    ("expression", decl.expression.toJson),
    ("loc", decl.location.toJson)]

def Import.toJson (decl : Import) : Json :=
  .obj [
    ("names", .arr (decl.names.map .str)),
    ("module", .str decl.source),
    ("loc", decl.location.toJson)]

def Schema.toJson (schema : Schema) : Json :=
  .obj [
    ("inputs", .arr (Input.listToJson schema.inputs)),
    ("values", .arr (schema.values.map Value.toJson)),
    ("traits", .arr (schema.traits.map Trait.toJson)),
    ("imports", .arr (schema.imports.map Import.toJson))]

end SchemaLang
