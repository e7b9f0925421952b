namespace SchemaLang

/-- The side on which operators of one precedence group first. -/
inductive Side where
  | left
  | right
  deriving DecidableEq, Repr

def Side.name : Side → String
  | .left => "left"
  | .right => "right"

inductive Operator where
  | add
  | subtract
  | multiply
  | divide
  | modulo
  | exponent
  | eq
  | ne
  | gt
  | lt
  | ge
  | le
  | and
  | or
  deriving DecidableEq, Repr

namespace Operator

def all : List Operator :=
  [.add, .subtract, .multiply, .divide, .modulo, .exponent, .eq, .ne, .gt, .lt, .ge, .le, .and,
    .or]

/-- How tightly an operator binds its operands. -/
def precedence : Operator → Nat
  | .or => 2
  | .and => 3
  | .eq | .ne | .gt | .lt | .ge | .le => 4
  | .add | .subtract => 5
  | .multiply | .divide | .modulo => 6
  | .exponent => 7

def associativity : Operator → Side
  | .exponent => .right
  | _ => .left

/-- The least precedence that an operator on the right side of this one must have to be grouped
with that side. -/
def rightPrecedence (op : Operator) : Nat :=
  match op.associativity with
  | .left => op.precedence + 1
  | .right => op.precedence

def spelling : Operator → String
  | .add => "+"
  | .subtract => "-"
  | .multiply => "*"
  | .divide => "/"
  | .modulo => "%"
  | .exponent => "**"
  | .eq => "=="
  | .ne => "!="
  | .gt => ">"
  | .lt => "<"
  | .ge => ">="
  | .le => "<="
  | .and => "and"
  | .or => "or"

def function : Operator → String
  | .add => "add"
  | .subtract => "subtract"
  | .multiply => "multiply"
  | .divide => "divide"
  | .modulo => "modulo"
  | .exponent => "power"
  | op => op.spelling

def name : Operator → String
  | .add => "add"
  | .subtract => "subtract"
  | .multiply => "multiply"
  | .divide => "divide"
  | .modulo => "modulo"
  | .exponent => "exponent"
  | .eq => "eq"
  | .ne => "ne"
  | .gt => "gt"
  | .lt => "lt"
  | .ge => "ge"
  | .le => "le"
  | .and => "and"
  | .or => "or"

end Operator

end SchemaLang
