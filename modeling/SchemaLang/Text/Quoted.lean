import SchemaLang.Text.ExtendingMark
import SchemaLang.Text.Printable

namespace SchemaLang.Text

/-- A character written by its code point, in hexadecimal. -/
def codePointEscape (c : Char) : List Char :=
  ['\\', 'u', '\x7b'] ++ Nat.toDigits 16 c.toNat ++ ['\x7d']

/-- One character of text that must stay on one line. `single` asks for a backslash before an
apostrophe; `marks` asks for a mark that would attach to the character before it to be written by
its code point. -/
def escapeChar (single marks : Bool) (c : Char) : List Char :=
  match c with
  | '\x00' => ['\\', '0']
  | '\t' => ['\\', 't']
  | '\r' => ['\\', 'r']
  | '\n' => ['\\', 'n']
  | '\\' => ['\\', '\\']
  | '"' => ['\\', '"']
  | '\'' => if single then ['\\', '\''] else ['\'']
  | c =>
    if marks && isExtendingMark c then codePointEscape c
    else if isPrintable c then [c]
    else codePointEscape c

/-- Text for use between quotes of either sort. Only a leading mark is written by its code point:
any other attaches to the character it belongs to. -/
def escaped (text : String) : String :=
  match text.toList with
  | [] => ""
  | c :: cs => String.ofList (escapeChar true true c ++ cs.flatMap (escapeChar true false))

/-- Text in double quotes, every mark written by its code point. -/
def quoted (text : String) : String :=
  String.ofList ('"' :: text.toList.flatMap (escapeChar false true) ++ ['"'])

end SchemaLang.Text
