import SchemaLang.Text.Lines
import SchemaLang.Text.Uppercase
import SchemaLang.Text.Word
import SchemaLang.Token.Kind

namespace SchemaLang

open Text

inductive Flaw where
  | unterminatedString
  | strayEquals
  | strayBang
  | strayCharacter (c : Char)
  deriving DecidableEq, Repr

def Flaw.message : Flaw → String
  | .unterminatedString => "Unterminated string literal"
  | .strayEquals => "Unexpected '=' (did you mean '=='?)"
  | .strayBang => "Unexpected '!' (did you mean '!='?)"
  | .strayCharacter c => "Unexpected character '" ++ String.singleton c ++ "'"

/-- What is read at one place of a text: its kind, its text, and how many characters it takes after
the first. -/
structure Lexeme where
  kind : Kind
  raw : List Char
  more : Nat
  deriving DecidableEq, Repr

namespace Lexeme

/-- A lexeme whose text is all that it takes. -/
def verbatim (kind : Kind) (raw : List Char) : Lexeme := ⟨kind, raw, raw.length - 1⟩

/-- A comment runs to the end of its line. -/
def comment (rest : List Char) : Lexeme :=
  let body := rest.takeWhile (· ≠ '\n')
  ⟨.comment, trim body, body.length⟩

/-- What a backslash and the character after it stand for. Both are kept where they stand for
nothing else. -/
def unescape (c : Char) : List Char :=
  match c with
  | 'n' => ['\n']
  | 't' => ['\t']
  | 'r' => ['\r']
  | '\\' => ['\\']
  | '"' => ['"']
  | '\'' => ['\'']
  | c => ['\\', c]

/-- The text of a string up to its closing quote, and how many characters that takes with the
quote. -/
def stringBody (quote : Char) : List Char → Option (List Char × Nat)
  | [] => none
  | c :: rest =>
    if c = quote then some ([], 1)
    else if c = '\\' then
      match rest with
      | [] => none
      | e :: rest => (stringBody quote rest).map fun (body, n) => (unescape e ++ body, n + 2)
    else (stringBody quote rest).map fun (body, n) => (c :: body, n + 1)

def quotedString (quote : Char) (rest : List Char) : Except Flaw Lexeme :=
  match stringBody quote rest with
  | some (body, n) => .ok ⟨.string, body, n⟩
  | none => .error .unterminatedString

/-- Digits, and underscores that stand before a digit. -/
def digitRun : List Char → List Char
  | [] => []
  | '_' :: d :: rest => if d.isDigit then '_' :: digitRun (d :: rest) else []
  | c :: rest => if c.isDigit then c :: digitRun rest else []

def startsWithDigit (text : List Char) : Bool := text.head?.any Char.isDigit

/-- A number without its sign. A point belongs to it only before a digit. -/
def unsignedNumber (text : List Char) : Kind × List Char :=
  let whole := digitRun text
  match text.drop whole.length with
  | '.' :: rest =>
    if startsWithDigit rest then (.float, whole ++ '.' :: digitRun rest) else (.integer, whole)
  | _ => (.integer, whole)

def number (c : Char) (rest : List Char) : Lexeme :=
  if c = '-' then
    let (kind, raw) := unsignedNumber rest
    verbatim kind (c :: raw)
  else
    let (kind, raw) := unsignedNumber (c :: rest)
    verbatim kind raw

/-- The further names of a path, each after two colons. -/
def pathTail (text : List Char) : List Char :=
  match text with
  | ':' :: ':' :: c :: rest =>
    if isWordStart c then
      ':' :: ':' :: c :: rest.takeWhile isWordPart ++ pathTail (rest.dropWhile isWordPart)
    else []
  | _ => []
termination_by text.length
decreasing_by
  have := (List.dropWhile_suffix isWordPart (l := rest)).length_le
  simp only [List.length_cons]
  omega

/-- Whether a word followed by this text is a label: a colon follows that starts neither a path nor
a symbol. -/
def endsLabel : List Char → Bool
  | [':'] => true
  | ':' :: c :: _ => c ≠ ':' && !isWordStart c
  | _ => false

/-- A path, a label, a constant, a reserved word or an identifier. -/
def word (c : Char) (rest : List Char) : Lexeme :=
  let name := c :: rest.takeWhile isWordPart
  let after := rest.dropWhile isWordPart
  let path := pathTail after
  if !path.isEmpty then verbatim .constant (name ++ path)
  else if endsLabel after then ⟨.label, name, name.length⟩
  else if isUppercase c then verbatim .constant name
  else verbatim ((Kind.ofReserved? (String.ofList name)).getD .identifier) name

/-- Operators and marks by their spelling; of two that share a start, the longer is first. -/
def spellings : List (List Char × Kind) := [
  (['.', '.', '.'], .mark .dotDotDot),
  (['.', '.'], .mark .dotDot),
  (['*', '*'], .operator .exponent),
  (['=', '='], .operator .eq),
  (['=', '>'], .mark .arrow),
  (['!', '='], .operator .ne),
  (['>', '='], .operator .ge),
  (['<', '='], .operator .le),
  (['&', '&'], .operator .and),
  (['|', '|'], .operator .or),
  (['+'], .operator .add),
  (['-'], .operator .subtract),
  (['*'], .operator .multiply),
  (['/'], .operator .divide),
  (['%'], .operator .modulo),
  (['>'], .operator .gt),
  (['<'], .operator .lt),
  (['&'], .operator .and),
  (['|'], .operator .or),
  (['('], .mark .leftParen),
  ([')'], .mark .rightParen),
  (['['], .mark .leftBracket),
  ([']'], .mark .rightBracket),
  (['\x7b'], .mark .leftBrace),
  (['\x7d'], .mark .rightBrace),
  ([','], .mark .comma),
  (['.'], .mark .dot),
  ([':'], .mark .colon)]

/-- A symbol is a colon and a word. -/
def symbol? (c : Char) (rest : List Char) : Option Lexeme :=
  if c = ':' && rest.head?.any isWordStart then
    let name := rest.takeWhile isWordPart
    some ⟨.symbol, name, name.length⟩
  else none

def punctuation (c : Char) (rest : List Char) : Except Flaw Lexeme :=
  match spellings.find? fun s => s.1.isPrefixOf (c :: rest) with
  | some (raw, kind) => .ok (verbatim kind raw)
  | none =>
    .error <|
      if c = '=' then .strayEquals else if c = '!' then .strayBang else .strayCharacter c

/-- The lexeme that starts with `c`, which is no white space, when `rest` follows. -/
def read (c : Char) (rest : List Char) : Except Flaw Lexeme :=
  if c = '#' then .ok (comment rest)
  else if c = '"' || c = '\'' then quotedString c rest
  else if c.isDigit || (c = '-' && startsWithDigit rest) then .ok (number c rest)
  else if isWordStart c then .ok (word c rest)
  else
    match symbol? c rest with
    | some lexeme => .ok lexeme
    | none => punctuation c rest

end Lexeme

end SchemaLang
