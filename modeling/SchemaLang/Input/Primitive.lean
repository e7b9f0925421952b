namespace SchemaLang

inductive Primitive where
  | integer
  | float
  | decimal
  | string
  | boolean
  | symbol
  | any
  deriving DecidableEq, Repr

namespace Primitive

def all : List Primitive := [.integer, .float, .decimal, .string, .boolean, .symbol, .any]

def name : Primitive → String
  | .integer => "integer"
  | .float => "float"
  | .decimal => "decimal"
  | .string => "string"
  | .boolean => "boolean"
  | .symbol => "symbol"
  | .any => "any"

def ofName? (name : String) : Option Primitive := all.find? (·.name = name)

end Primitive

end SchemaLang
