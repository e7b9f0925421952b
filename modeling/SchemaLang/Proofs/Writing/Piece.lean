import Mathlib.Data.List.Forall2
import SchemaLang.Decimal.Numeral
import SchemaLang.Proofs.Lexical.Read
import SchemaLang.Token.Scan

namespace SchemaLang

open Text Lexical

/-- A token to be written. -/
inductive Piece where
  | keyword (word : Keyword)
  | type (word : TypeWord)
  | boolean (value : Bool)
  | word (name : String)
  | constant (path : String)
  | symbol (name : String)
  | label (name : String)
  | integer (value : Int64)
  | float (numeral : String)
  | string (value : String)
  | operator (op : Operator)
  | mark (m : Mark)

namespace Piece

def numeral (n : Int64) : List Char :=
  (if n.toInt < 0 then ['-'] else []) ++ Nat.toDigits 10 n.toInt.natAbs

/-- A quote and a backslash stand after a backslash. -/
def escaped (c : Char) : List Char := if c = '"' ∨ c = '\\' then ['\\', c] else [c]

/-- The kind that a bare word is scanned as. -/
def wordKind (name : String) : Kind :=
  if starts isUppercase name.toList then .constant
  else (Kind.ofReserved? name).getD .identifier

def kind : Piece → Kind
  | .keyword w => .keyword w
  | .type w => .type w
  | .boolean _ => .boolean
  | .word name => wordKind name
  | .constant _ => .constant
  | .symbol _ => .symbol
  | .label _ => .label
  | .integer _ => .integer
  | .float _ => .float
  | .string _ => .string
  | .operator op => .operator op
  | .mark m => .mark m

def raw : Piece → String
  | .keyword w => w.spelling
  | .type w => w.spelling
  | .boolean value => if value then "true" else "false"
  | .word name | .constant name | .symbol name | .label name => name
  | .integer value => String.ofList (numeral value)
  | .float numeral => numeral
  | .string value => value
  | .operator op => op.spelling
  | .mark m => m.spelling

def text : Piece → List Char
  | .symbol name => ':' :: name.toList
  | .label name => name.toList ++ [':']
  | .string value => '"' :: value.toList.flatMap escaped ++ ['"']
  | p => p.raw.toList

end Piece

namespace Lexical

/-- A capitalized word, or a path of words. -/
inductive Constant : List Char → Prop
  | word {c : Char} {cs : List Char} : Word (c :: cs) → isUppercase c → Constant (c :: cs)
  | path {w p : List Char} : Word w → Path p → Constant (w ++ ':' :: ':' :: p)

/-- Digits on both sides of a point, perhaps after a minus. -/
inductive Decimal : List Char → Prop
  | mk {sign ds ds' : List Char} : sign = [] ∨ sign = ['-'] → Digits ds → Digits ds' →
    Decimal (sign ++ ds ++ '.' :: ds')

end Lexical

namespace Piece

/-- Whether the piece has a spelling that is scanned as the piece. -/
def Valid : Piece → Prop
  | .word name | .symbol name | .label name => Word name.toList
  | .constant path => Constant path.toList
  | .float numeral => Lexical.Decimal numeral.toList
  | .operator op => op ≠ .and ∧ op ≠ .or
  | .mark m => m ≠ .colon
  | _ => True

@[simp] theorem valid_keyword (w : Keyword) : (Piece.keyword w).Valid := trivial

@[simp] theorem valid_type (w : TypeWord) : (Piece.type w).Valid := trivial

@[simp] theorem valid_symbol {name : String} :
    (Piece.symbol name).Valid ↔ Word name.toList := Iff.rfl

@[simp] theorem valid_operator {op : Operator} :
    (Piece.operator op).Valid ↔ op ≠ .and ∧ op ≠ .or := Iff.rfl

@[simp] theorem valid_mark {m : Mark} : (Piece.mark m).Valid ↔ m ≠ .colon := Iff.rfl

/-- Whether the piece follows another one without a space. -/
def closes : Piece → Bool
  | .mark .comma | .mark .rightParen | .mark .rightBracket | .mark .rightBrace => true
  | _ => false

/-- Whether another piece follows this one without a space. -/
def opens : Piece → Bool
  | .mark .leftParen | .mark .leftBracket | .mark .leftBrace => true
  | _ => false

/-- Whether a point or a parenthesis follows the piece without a space. -/
def leads : Piece → Bool
  | .keyword .input | .keyword .fn | .type .index | .word _ => true
  | _ => false

/-- Whether two pieces are written without a space between them. -/
def joined (p q : Piece) : Bool :=
  q.closes || p.opens ||
    match p, q with
    | p, .mark .dot | p, .mark .leftParen => p.leads
    | .mark .dot, .word _ => true
    | .operator .subtract, .constant _ => true
    | _, _ => false

def gap (p q : Piece) : List Char := if p.joined q then [] else [' ']

def layout : List Piece → List Char
  | [] => []
  | p :: ps =>
    p.text ++
      match ps with
      | [] => []
      | q :: _ => gap p q ++ layout ps

end Piece

end SchemaLang
