import SchemaLang.Input.Primitive
import SchemaLang.Token.Operator

namespace SchemaLang

/-- A word with a role in the grammar. -/
inductive Keyword where
  | schema
  | input
  | value
  | trait
  | letWord
  | doWord
  | endWord
  | on
  | base
  | importWord
  | fn
  deriving DecidableEq, Repr

namespace Keyword

def all : List Keyword :=
  [.schema, .input, .value, .trait, .letWord, .doWord, .endWord, .on, .base, .importWord, .fn]

def spelling : Keyword → String
  | .schema => "schema"
  | .input => "input"
  | .value => "value"
  | .trait => "trait"
  | .letWord => "let"
  | .doWord => "do"
  | .endWord => "end"
  | .on => "on"
  | .base => "base"
  | .importWord => "import"
  | .fn => "fn"

end Keyword

/-- A word that starts an input declaration. -/
inductive TypeWord where
  | primitive (type : Primitive)
  | array
  | hash
  | element
  | index
  deriving DecidableEq, Repr

namespace TypeWord

def all : List TypeWord := Primitive.all.map .primitive ++ [.array, .hash, .element, .index]

def spelling : TypeWord → String
  | .primitive type => type.name
  | .array => "array"
  | .hash => "hash"
  | .element => "element"
  | .index => "index"

end TypeWord

/-- A mark that groups or separates. -/
inductive Mark where
  | leftParen
  | rightParen
  | leftBracket
  | rightBracket
  | leftBrace
  | rightBrace
  | comma
  | dot
  | colon
  | arrow
  | dotDot
  | dotDotDot
  deriving DecidableEq, Repr

namespace Mark

def all : List Mark :=
  [.leftParen, .rightParen, .leftBracket, .rightBracket, .leftBrace, .rightBrace, .comma, .dot,
    .colon, .arrow, .dotDot, .dotDotDot]

def spelling : Mark → String
  | .leftParen => "("
  | .rightParen => ")"
  | .leftBracket => "["
  | .rightBracket => "]"
  | .leftBrace => "\x7b"
  | .rightBrace => "\x7d"
  | .comma => ","
  | .dot => "."
  | .colon => ":"
  | .arrow => "=>"
  | .dotDot => ".."
  | .dotDotDot => "..."

def name : Mark → String
  | .leftParen => "l_paren"
  | .rightParen => "r_paren"
  | .leftBracket => "l_bracket"
  | .rightBracket => "r_bracket"
  | .leftBrace => "l_brace"
  | .rightBrace => "r_brace"
  | .comma => "comma"
  | .dot => "dot"
  | .colon => "colon"
  | .arrow => "arrow"
  | .dotDot => "dot_dot"
  | .dotDotDot => "dot_dot_dot"

end Mark

inductive Kind where
  | integer
  | float
  | string
  | boolean
  | symbol
  | identifier
  | constant
  | label
  | keyword (word : Keyword)
  | type (word : TypeWord)
  | operator (op : Operator)
  | mark (m : Mark)
  | comment
  | eof
  deriving DecidableEq, Repr

inductive Category where
  | keyword
  | typeKeyword
  | operator
  | literal
  | identifier
  | punctuation
  | comment
  | eof
  deriving DecidableEq, Repr

def Category.name : Category → String
  | .keyword => "keyword"
  | .typeKeyword => "type_keyword"
  | .operator => "operator"
  | .literal => "literal"
  | .identifier => "identifier"
  | .punctuation => "punctuation"
  | .comment => "comment"
  | .eof => "eof"

namespace Kind

def all : List Kind :=
  [.integer, .float, .string, .boolean, .symbol, .identifier, .constant, .label] ++
    Keyword.all.map .keyword ++ TypeWord.all.map .type ++ Operator.all.map .operator ++
    Mark.all.map .mark ++ [.comment, .eof]

/-- The kind's name, words joined by underscores. -/
def name : Kind → String
  | .integer => "integer"
  | .float => "float"
  | .string => "string"
  | .boolean => "boolean"
  | .symbol => "symbol"
  | .identifier => "identifier"
  | .constant => "constant"
  | .label => "label"
  | .keyword word => word.spelling
  | .type word => word.spelling ++ "_type"
  | .operator op => op.name
  | .mark m => m.name
  | .comment => "comment"
  | .eof => "eof"

def ofName? (name : String) : Option Kind := all.find? (·.name = name)

/-- Each letter after an underscore is made a capital, and the underscores are dropped. -/
def capitalize : Bool → List Char → List Char
  | _, [] => []
  | _, '_' :: rest => capitalize true rest
  | upper, c :: rest => (if upper then c.toUpper else c) :: capitalize false rest

/-- The kind's name in capitalized words that are run together. -/
def title (kind : Kind) : String := String.ofList (capitalize true kind.name.toList)

def category : Kind → Category
  | .integer | .float | .string | .boolean | .symbol => .literal
  | .identifier | .constant | .label => .identifier
  | .keyword _ => .keyword
  | .type _ => .typeKeyword
  | .operator _ => .operator
  | .mark _ => .punctuation
  | .comment => .comment
  | .eof => .eof

/-- The spelling that a message shows for the kind, where it has but one. -/
def spelling? : Kind → Option String
  | .keyword word => some word.spelling
  | .type word => some word.spelling
  | .operator op => some op.spelling
  | .mark m => some m.spelling
  | .eof => some "end of input"
  | _ => none

def operator? : Kind → Option Operator
  | .operator op => some op
  | _ => none

/-- Whether an expression may start with the kind. A minus may: it negates what follows. -/
def startsExpression : Kind → Bool
  | .integer | .float | .string | .boolean | .symbol | .identifier | .constant => true
  | .keyword .input | .keyword .fn => true
  | .type .index => true
  | .operator .subtract => true
  | .mark .leftParen | .mark .leftBracket | .mark .leftBrace => true
  | _ => false

/-- Words with a kind of their own. -/
def reserved : List (String × Kind) :=
  Keyword.all.map (fun word => (word.spelling, .keyword word)) ++
    TypeWord.all.map (fun word => (word.spelling, .type word)) ++
    [("true", .boolean), ("false", .boolean), ("and", .operator .and), ("or", .operator .or)]

/-- The kind of a bare word that the grammar knows. -/
def ofReserved? (word : String) : Option Kind := reserved.lookup word

end Kind

end SchemaLang
