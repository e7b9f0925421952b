import SchemaLang.Input.Basic

namespace SchemaLang

/-- A named expression. One that is inline may be put in the place of its name. -/
structure Value where
  name : String
  expression : Expr
  inline : Bool
  location : Location

/-- A named condition. -/
structure Trait where
  name : String
  expression : Expr
  location : Location

/-- Functions that are taken from another schema. -/
structure Import where
  names : List String
  source : String
  location : Location
  deriving DecidableEq, Repr

/-- A schema: what it takes, and what it defines from that. -/
structure Schema where
  inputs : List Input
  values : List Value
  traits : List Trait
  imports : List Import

namespace Schema

def value? (schema : Schema) (name : String) : Option Value :=
  schema.values.find? (·.name = name)

def trait? (schema : Schema) (name : String) : Option Trait :=
  schema.traits.find? (·.name = name)

def input? (schema : Schema) (name : String) : Option Input :=
  schema.inputs.find? (·.name = name)

/-- The input that a path of names leads to. -/
def inputAt? (schema : Schema) : List String → Option Input
  | [] => none
  | name :: path => path.foldl (fun input name => input.bind (·.child? name)) (schema.input? name)

end Schema

end SchemaLang
