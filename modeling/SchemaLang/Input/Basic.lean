import SchemaLang.Expr.Basic
import SchemaLang.Input.Primitive
import SchemaLang.Token.Location

namespace SchemaLang

inductive InputType where
  | primitive (type : Primitive)
  | array
  | hash
  /-- The items of an array, when they are declared as such. -/
  | element (type : InputType)
  /-- The position in an array. -/
  | index
  deriving DecidableEq, Repr

namespace InputType

/-- Whether inputs of the type may hold further inputs. -/
def isContainer : InputType → Bool
  | .array | .hash => true
  | .element type => type.isContainer
  | .primitive _ | .index => false

def isArray : InputType → Bool
  | .array => true
  | .element type => type.isArray
  | _ => false

end InputType

/-- How the items of an array are reached: by the fields of each item, or as elements. -/
inductive AccessMode where
  | field
  | element
  deriving DecidableEq, Repr

def AccessMode.name : AccessMode → String
  | .field => "field"
  | .element => "element"

inductive Bound where
  | int (value : Int64)
  | float (value : Float)

/-- The values that an input may take. -/
inductive Domain where
  | range (min max : Bound) (exclusive : Bool)
  | values (values : List Literal)

structure Input where
  name : String
  type : InputType
  domain : Option Domain
  children : List Input
  accessMode : Option AccessMode
  index : Option String
  location : Location

def Input.child? (input : Input) (name : String) : Option Input :=
  input.children.find? (·.name = name)

end SchemaLang
