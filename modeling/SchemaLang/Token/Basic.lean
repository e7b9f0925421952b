import SchemaLang.Text.Quoted
import SchemaLang.Text.Word
import SchemaLang.Token.Kind
import SchemaLang.Token.Location

namespace SchemaLang

/-- The block that an identifier stands in. -/
inductive Context where
  | schema
  | input
  | block
  deriving DecidableEq, Repr

def Context.name : Context → String
  | .schema => "schema"
  | .input => "input"
  | .block => "block"

/-- A token. `raw` is its text without quotes, the colon of a symbol or label, and escapes. -/
structure Token where
  kind : Kind
  raw : String
  location : Location
  context : Option Context
  deriving DecidableEq, Repr

namespace Token

/-- Whether the token's kind is one that a bare word may have. A constant with a path is none. -/
def hasWordKind (token : Token) : Bool :=
  match token.kind with
  | .keyword _ | .type _ | .identifier | .boolean | .operator .and | .operator .or => true
  | .constant => !(token.raw.toList.zip token.raw.toList.tail).contains (':', ':')
  | _ => false

/-- Whether the token is spelt as a bare word. -/
def isWord (token : Token) : Bool :=
  token.hasWordKind && token.raw.toList.head?.any Text.isWordStart

/-- How a message shows the token, on one line. -/
def describe (token : Token) : String :=
  match token.kind with
  | .eof => "end of input"
  | .symbol => "\":" ++ Text.escaped token.raw ++ "\""
  | .label => "\"" ++ Text.escaped token.raw ++ ":\""
  | .string => "string " ++ Text.quoted token.raw
  | _ => Text.quoted token.raw

end Token

end SchemaLang
