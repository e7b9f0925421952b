import SchemaLang.Token.Basic

namespace SchemaLang

inductive Nesting where
  | expression
  | input
  deriving DecidableEq, Repr

def Nesting.name : Nesting → String
  | .expression => "Expression"
  | .input => "Input declaration"

/-- Why a token is refused. -/
inductive Cause where
  | missing (kind : Kind)
  | missingColon
  | expectedSymbol
  | tooDeep (nesting : Nesting)
  | integerRange
  | invalidFloat
  | unclosedSchema
  | secondInputBlock
  | lateImport
  | expectedDeclaration
  | afterSchema
  | missingSource
  | expectedModule
  | missingComma (name : String)
  | expectedBody (name : String)
  | expectedCase
  | missingResult
  | mixedArray (name : String)
  | elementOutsideArray
  | indexOutsideArray
  | expectedInputType
  | notContainer (name : String)
  | unknownElementType
  | expectedOption
  | indexOption
  | unknownOption
  | expectedDots
  | mixedRange
  | expectedBound
  | expectedDomainLiteral
  | foldedMinus
  | unknownConstant
  | expectedExpression
  | missingDot
  | expectedField
  | positionalAfterKey
  | keysOnly (function : String)
  | duplicateKey
  | missingArrow (key : Token)
  | expectedHashKey
  deriving DecidableEq, Repr

def Cause.message (token : Token) : Cause → String
  | .missing kind =>
    let name := kind.spelling?.getD "token"
    match kind.category with
    | .keyword | .typeKeyword => "Missing '" ++ name ++ "' keyword, but got " ++ token.describe
    | _ => "Missing '" ++ name ++ "', but got " ++ token.describe
  | .missingColon => "Missing ':' before symbol, but got " ++ token.describe
  | .expectedSymbol => "Expected a symbol like :name, but got " ++ token.describe
  | .tooDeep nesting => nesting.name ++ " is nested too deeply"
  | .integerRange => "Integer literal " ++ token.raw ++ " is out of range"
  | .invalidFloat => "Invalid float literal " ++ token.raw
  | .unclosedSchema => "Missing 'end' keyword to close the schema"
  | .secondInputBlock =>
    "Only one input block is allowed and it must come before value and trait declarations"
  | .lateImport => "Imports must come before the input block"
  | .expectedDeclaration =>
    "Expected 'value', 'trait', 'let' or 'end', but got " ++ token.describe
  | .afterSchema => "Unexpected " ++ token.describe ++ " after the end of the schema"
  | .missingSource => "Missing 'from:' module in import, but got " ++ token.describe
  | .expectedModule =>
    "Expected a module path like Shared::Tax after 'from:', but got " ++ token.describe
  | .missingComma name => "Missing ',' after :" ++ name ++ ", but got " ++ token.describe
  | .expectedBody name =>
    "Expected ',' and an expression or a 'do' block after :" ++ name ++ ", but got " ++
      token.describe
  | .expectedCase => "Expected 'on', 'base' or 'end' in cascade, but got " ++ token.describe
  | .missingResult =>
    "Missing ',' and a result after the 'on' condition, but got " ++ token.describe
  | .mixedArray name =>
    "Array :" ++ name ++
      " mixes 'element' declarations with named field declarations; use one style"
  | .elementOutsideArray => "'element' declarations are only allowed inside an array"
  | .indexOutsideArray => "'index' declarations are only allowed inside an array"
  | .expectedInputType =>
    "Expected an input type (integer, float, decimal, string, boolean, symbol, any, array, " ++
      "hash), but got " ++ token.describe
  | .notContainer name =>
    "Only array and hash inputs can have nested declarations, but :" ++ name ++ " is not one"
  | .unknownElementType => "Unknown element type :" ++ token.raw
  | .expectedOption => "Expected an option like domain: or index:, but got " ++ token.describe
  | .indexOption => "The index: option is only allowed on arrays"
  | .unknownOption => "Unknown input option '" ++ token.raw ++ ":'"
  | .expectedDots => "Expected '..' or '...' in domain range, but got " ++ token.describe
  | .mixedRange => "Domain range endpoints must both be integers or both be floats"
  | .expectedBound => "Expected a number in domain range, but got " ++ token.describe
  | .expectedDomainLiteral => "Domain values must be literals, but got " ++ token.describe
  | .foldedMinus =>
    "Unexpected " ++ token.describe ++
      " after an expression; put a space after '-' to subtract (as in a - 1)"
  | .unknownConstant => "Unknown constant " ++ token.raw
  | .expectedExpression => "Expected an expression, but got " ++ token.describe
  | .missingDot => "Missing '.' after 'input' (as in input.field), but got " ++ token.describe
  | .expectedField => "Expected a field name after '.', but got " ++ token.describe
  | .positionalAfterKey =>
    "Positional arguments must come before keyword arguments, but got " ++ token.describe
  | .keysOnly function =>
    "Imported function '" ++ function ++
      "' takes keyword arguments only (like name: value), but got " ++ token.describe
  | .duplicateKey => "Duplicate keyword argument '" ++ token.raw ++ ":'"
  | .missingArrow key =>
    "Missing '=>' after hash key " ++ key.describe ++ ", but got " ++ token.describe
  | .expectedHashKey =>
    "Expected a hash key (key:, \"key\" => or :key =>), but got " ++ token.describe

/-- A refusal: the token, or the end of the tokens when there is none, and the cause. -/
structure Fault where
  token : Option Token
  cause : Cause
  deriving DecidableEq, Repr

/-- A refusal at a token, also when that is the token for the end. -/
structure Refusal where
  token : Token
  cause : Cause
  deriving DecidableEq, Repr

def Refusal.message (refusal : Refusal) : String := refusal.cause.message refusal.token

/-- A fault with the token that stands for the end. -/
def Fault.refusal (fault : Fault) (stop : Token) : Refusal :=
  ⟨fault.token.getD stop, fault.cause⟩

end SchemaLang
