import SchemaLang.Decimal.Text
import SchemaLang.Json.Basic

namespace SchemaLang.Json

/-- A character of a JSON string. Controls below the space are escaped, by letter where there is
one. -/
def escapeChar (c : Char) : List Char :=
  match c with
  | '"' => ['\\', '"']
  | '\\' => ['\\', '\\']
  | '\n' => ['\\', 'n']
  | '\t' => ['\\', 't']
  | '\r' => ['\\', 'r']
  | '\x08' => ['\\', 'b']
  | '\x0c' => ['\\', 'f']
  | c =>
    if c.toNat < 0x20 then
      ['\\', 'u', '0', '0'] ++ Nat.toDigits 16 (c.toNat / 16) ++ Nat.toDigits 16 (c.toNat % 16)
    else [c]

def quote (text : String) : String :=
  String.ofList ('"' :: text.toList.flatMap escapeChar ++ ['"'])

def printFloat (x : Float) : String :=
  if x.isFinite then Decimal.plainStyle.write x else "null"

mutual

/-- The text of a value on one line, without spaces. -/
def compact : Json → String
  | .null => "null"
  | .bool b => if b then "true" else "false"
  | .int n => toString n
  | .float x => printFloat x
  | .str s => quote s
  | .arr items => "[" ++ ",".intercalate (compactItems items) ++ "]"
  | .obj fields => "\x7b" ++ ",".intercalate (compactFields fields) ++ "\x7d"

def compactItems : List Json → List String
  | [] => []
  | v :: more => compact v :: compactItems more

def compactFields : List (String × Json) → List String
  | [] => []
  | (k, v) :: more => (quote k ++ ":" ++ compact v) :: compactFields more

end

/-- Parts on lines of their own between two brackets, two spaces further in than the brackets. -/
def block (left right : String) (indent : Nat) (parts : List String) : String :=
  if parts.isEmpty then left ++ right
  else
    let margin (n : Nat) := "\n" ++ "".pushn ' ' (2 * n)
    left ++ margin (indent + 1) ++ ("," ++ margin (indent + 1)).intercalate parts ++
      margin indent ++ right

mutual

/-- The text of a value over several lines, each level two spaces further in. -/
def prettyAt (indent : Nat) : Json → String
  | .arr items => block "[" "]" indent (prettyItems (indent + 1) items)
  | .obj fields => block "\x7b" "\x7d" indent (prettyFields (indent + 1) fields)
  | .null => "null"
  | .bool b => if b then "true" else "false"
  | .int n => toString n
  | .float x => printFloat x
  | .str s => quote s

def prettyItems (indent : Nat) : List Json → List String
  | [] => []
  | v :: more => prettyAt indent v :: prettyItems indent more

def prettyFields (indent : Nat) : List (String × Json) → List String
  | [] => []
  | (k, v) :: more => (quote k ++ ": " ++ prettyAt indent v) :: prettyFields indent more

end

def pretty (value : Json) : String := prettyAt 0 value

end SchemaLang.Json
