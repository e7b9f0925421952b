import SchemaLang.Expr.Basic
import SchemaLang.Reader.Basic

namespace SchemaLang.Reader

/-- The readers of what stands one level further in. -/
structure Level where
  /-- Operands between operators of at least a precedence. -/
  climb : Nat → Reader Expr
  /-- The operand of a minus. -/
  negated : Reader Expr

def Level.expression (inner : Level) : Reader Expr := inner.climb 0

def fieldName : Reader String
  | [] => fail [] .expectedField
  | t :: rest => if t.isWord then .ok (.mk t.raw rest) else fail (t :: rest) .expectedField

def fieldNames (ts : List Token) : Except Fault (Parsed (List String) (ts.length + 1)) :=
  match accept? (.mark .dot) ts with
  | none => .ok (.mk [] ts)
  | some ⟨_, rest, _⟩ => do
    let ⟨name, rest, _⟩ ← fieldName rest
    let ⟨names, rest, _⟩ ← fieldNames rest
    return .mk (name :: names) rest
termination_by ts.length
decreasing_by omega

/-- What follows the word `input`: one name or more, each after a dot. -/
def inputPath : Reader Expr := fun ts =>
  match accept? (.mark .dot) ts with
  | none => fail ts .missingDot
  | some ⟨_, rest, _⟩ => do
    let ⟨name, rest, _⟩ ← fieldName rest
    let ⟨names, rest, _⟩ ← fieldNames rest
    return .mk (if names.isEmpty then .input name else .inputPath (name :: names)) rest

inductive Argument where
  | positional (value : Expr)
  | keyed (key : String) (value : Expr)

namespace Argument

def positional? : Argument → Option Expr
  | .positional value => some value
  | .keyed _ _ => none

def keyed? : Argument → Option (String × Expr)
  | .positional _ => none
  | .keyed key value => some (key, value)

end Argument

/-- A key, none of the earlier ones, and its value. -/
def keyedArgument (inner : Level) (earlier : List String) : Reader (String × Expr)
  | [] => fail [] .expectedExpression
  | t :: rest =>
    if t.raw ∈ earlier then fail (t :: rest) .duplicateKey
    else do
      let ⟨value, rest, _⟩ ← inner.expression rest
      return .mk (t.raw, value) rest

/-- An argument that follows the earlier ones. After a key, all have keys. -/
def argument (inner : Level) (earlier : List Argument) : Reader Argument := fun ts =>
  let keys := (earlier.filterMap Argument.keyed?).map Prod.fst
  if firstKind ts = .label then do
    let ⟨(key, value), rest, _⟩ ← keyedArgument inner keys ts
    return .mk (.keyed key value) rest
  else if !keys.isEmpty then fail ts .positionalAfterKey
  else do
    let ⟨value, rest, _⟩ ← inner.expression ts
    return .mk (.positional value) rest

/-- The arguments of a call, up to its closing parenthesis. -/
def arguments (inner : Level) : Reader (List Argument) :=
  separated (.mark .rightParen) (argument inner) []

/-- An argument of an imported function, which must have a key. -/
def importArgument (inner : Level) (function : String) (earlier : List (String × Expr)) :
    Reader (String × Expr) := fun ts =>
  if firstKind ts = .label then keyedArgument inner (earlier.map Prod.fst) ts
  else fail ts (.keysOnly function)

def Argument.call (function : String) (args : List Argument) : Expr :=
  .call function (args.filterMap positional?) (args.filterMap keyed?)

/-- What follows a name: nothing, or the arguments of a call. `ref` refers to a declaration, and
imported functions take keys only. -/
def named (imported : List String) (inner : Level) (name : String) : Tail Expr := fun ts =>
  match accept? (.mark .leftParen) ts with
  | none => .ok (.mk (.reference name) ts)
  | some ⟨_, rest, _⟩ =>
    if name = "ref" then do
      let ⟨target, rest, _⟩ ← symbol rest
      let ⟨_, rest, _⟩ ← expect (.mark .rightParen) rest
      return .mk (.reference target) rest
    else if name ∈ imported then do
      let ⟨args, rest, _⟩ ← separated (.mark .rightParen) (importArgument inner name) [] rest
      return .mk (.importCall name args) rest
    else do
      let ⟨args, rest, _⟩ ← arguments inner rest
      return .mk (Argument.call name args) rest

/-- What follows the word `fn`: the function's name as a symbol, then its arguments. -/
def functionCall (inner : Level) : Reader Expr := fun ts => do
  let ⟨_, rest, _⟩ ← expect (.mark .leftParen) ts
  let ⟨function, rest, _⟩ ← symbol rest
  match accept? (.mark .comma) rest with
  | some ⟨_, rest, _⟩ =>
    let ⟨args, rest, _⟩ ← arguments inner rest
    return .mk (Argument.call function args) rest
  | none =>
    let ⟨_, rest, _⟩ ← expect (.mark .rightParen) rest
    return .mk (.apply function []) rest

/-- A key of a hash, with the arrow that follows a string or a symbol. -/
def hashKey : Reader Literal
  | [] => fail [] .expectedHashKey
  | t :: rest =>
    let arrow (key : Literal) : Except Fault (Parsed Literal (t :: rest).length) :=
      match accept? (.mark .arrow) rest with
      | none => fail rest (.missingArrow t)
      | some ⟨_, rest, _⟩ => .ok (.mk key rest)
    match t.kind with
    | .label => .ok (.mk (.symbol t.raw) rest)
    | .string => arrow (.string t.raw)
    | .symbol => arrow (.symbol t.raw)
    | _ => fail (t :: rest) .expectedHashKey

def hashPair (inner : Level) : Reader (Literal × Expr) := fun ts => do
  let ⟨key, rest, _⟩ ← hashKey ts
  let ⟨value, rest, _⟩ ← inner.expression rest
  return .mk (key, value) rest

/-- An operand without the indices after it. -/
def primary (imported : List String) (inner : Level) : Reader Expr
  | [] => fail [] .expectedExpression
  | t :: rest =>
    match t.kind with
    | .integer => do return .mk (.int (← intValue t)) rest
    | .float => do return .mk (.float (← floatValue t)) rest
    | .string => .ok (.mk (.string t.raw) rest)
    | .boolean => .ok (.mk (.boolean (t.raw = "true")) rest)
    | .symbol => .ok (.mk (.symbol t.raw) rest)
    | .constant =>
      if t.raw = "Float::INFINITY" then .ok (.mk (.float (1.0 / 0.0)) rest)
      else fail (t :: rest) .unknownConstant
    | .operator .subtract => do
      let ⟨e, rest, _⟩ ← inner.negated rest
      return .mk (.apply "subtract" [.int 0, e]) rest
    | .keyword .input => do
      let ⟨e, rest, _⟩ ← inputPath rest
      return .mk e rest
    | .identifier => do
      let ⟨e, rest, _⟩ ← named imported inner t.raw rest
      return .mk e rest
    | .keyword .fn => do
      let ⟨e, rest, _⟩ ← functionCall inner rest
      return .mk e rest
    | .type .index =>
      match accept? (.mark .leftParen) rest with
      | none => fail (t :: rest) .expectedExpression
      | some ⟨_, rest, _⟩ => do
        let ⟨name, rest, _⟩ ← symbol rest
        let ⟨_, rest, _⟩ ← expect (.mark .rightParen) rest
        return .mk (.index name) rest
    | .mark .leftParen => do
      let ⟨e, rest, _⟩ ← inner.expression rest
      let ⟨_, rest, _⟩ ← expect (.mark .rightParen) rest
      return .mk e rest
    | .mark .leftBracket => do
      let ⟨es, rest, _⟩ ← separated (.mark .rightBracket) (fun _ => inner.expression) [] rest
      return .mk (.array es) rest
    | .mark .leftBrace => do
      let ⟨pairs, rest, _⟩ ← separated (.mark .rightBrace) (fun _ => hashPair inner) [] rest
      return .mk (.hash pairs) rest
    | _ => fail (t :: rest) .expectedExpression

/-- The indices after an operand, each in brackets and applied to what stands before it. -/
def indices (inner : Level) (e : Expr) (ts : List Token) :
    Except Fault (Parsed Expr (ts.length + 1)) :=
  match accept? (.mark .leftBracket) ts with
  | none => .ok (.mk e ts)
  | some ⟨_, rest, _⟩ => do
    let ⟨i, rest, _⟩ ← inner.expression rest
    let ⟨_, rest, _⟩ ← expect (.mark .rightBracket) rest
    let ⟨e, rest, _⟩ ← indices inner (.apply "at" [e, i]) rest
    return .mk e rest
termination_by ts.length
decreasing_by omega

def operand (imported : List String) (inner : Level) : Reader Expr := fun ts => do
  let ⟨e, rest, _⟩ ← primary imported inner ts
  let ⟨e, rest, _⟩ ← indices inner e rest
  return .mk e rest

/-- The operators of at least a precedence that follow a left side, each with its right side. -/
def chain (inner : Level) (least : Nat) (left : Expr) (ts : List Token) :
    Except Fault (Parsed Expr (ts.length + 1)) :=
  match ts with
  | [] => .ok (.mk left [])
  | t :: rest =>
    match t.kind with
    | .operator op =>
      if op.precedence < least then .ok (.mk left (t :: rest))
      else do
        let ⟨right, rest, _⟩ ← inner.climb op.rightPrecedence rest
        let ⟨e, rest, _⟩ ← chain inner least (.apply op.function [left, right]) rest
        return .mk e rest
    | _ => .ok (.mk left (t :: rest))
termination_by ts.length
decreasing_by all_goals
  simp only [List.length_cons] at *
  omega

/-- Whether a number with a sign stands first. A minus written next to a digit belongs to the
number, so this is what is left of a subtraction written without a space. -/
def startsWithSigned : List Token → Bool
  | [] => false
  | t :: _ => (t.kind = .integer || t.kind = .float) && t.raw.toList.head? = some '-'

/-- Operands between operators of at least a precedence. -/
def climb (imported : List String) (inner : Level) (least : Nat) : Reader Expr := fun ts => do
  let ⟨left, rest, _⟩ ← operand imported inner ts
  let ⟨e, rest, _⟩ ← chain inner least left rest
  if startsWithSigned rest then fail rest .foldedMinus else return .mk e rest

/-- The readers that may open a number of levels, one inside the other. -/
def levels (imported : List String) : Nat → Level
  | 0 => ⟨fun _ ts => fail ts (.tooDeep .expression), fun ts => fail ts (.tooDeep .expression)⟩
  | room + 1 =>
    let inner := levels imported room
    ⟨climb imported inner, operand imported inner⟩

/-- An expression that opens at most `room` levels, one inside the other. -/
def expression (imported : List String) (room : Nat) : Reader Expr :=
  (levels imported room).expression

end SchemaLang.Reader
