import SchemaLang.Decimal.Numeral
import SchemaLang.Text.DecimalDigit
import SchemaLang.Text.Lines
import SchemaLang.Token.Location

namespace SchemaLang.Rewording

open Text

/-- What follows `start` in a text that starts with it. -/
def after? (start : String) (text : List Char) : Option (List Char) :=
  if start.toList.isPrefixOf text then some (text.drop start.length) else none

/-- Whether `c` is one of the characters that draw a tree of causes. -/
def isMarker (c : Char) : Bool :=
  isWhiteSpace c || c = '|' || c = '\x60' || c = '+' || c = '-'

/-- A line of a tree of causes without its drawing. -/
def undrawn (line : List Char) : List Char := trim (line.dropWhile isMarker)

/-- Whether a line says no more than that some sequence failed. -/
def isGeneric (line : List Char) : Bool := (after? "Failed to match sequence" line).isSome

/-- The deepest line of a tree of causes that is not generic; the first if all are. -/
def deepestCause (raw : List Char) : List Char :=
  let causes := ((lines raw).map undrawn).filter (!·.isEmpty)
  ((causes.reverse.find? (!isGeneric ·)).or causes.head?).getD []

/-- The digits of the two numbers of a text that is ` at line L char C`, perhaps with a full stop
and white space after it. -/
def position? (text : List Char) : Option (List Char × List Char) := do
  if !text.head?.any isWhiteSpace then none
  let text ← after? "at line " (text.dropWhile isWhiteSpace)
  let line := text.takeWhile isDecimalDigit
  let text ← after? " char " (text.dropWhile isDecimalDigit)
  let column := text.takeWhile isDecimalDigit
  let text := text.dropWhile isDecimalDigit
  let text := (after? "." text).getD text
  if line.isEmpty || column.isEmpty || !text.all isWhiteSpace then none
  return (line, column)

/-- A text before the position that may end it, and that position. -/
def splitPosition : List Char → List Char × Option (List Char × List Char)
  | [] => ([], none)
  | c :: rest =>
    match position? (c :: rest) with
    | some p => ([], some p)
    | none =>
      let (before, p) := splitPosition rest
      (c :: before, p)

/-- The number that a text of the ten common digits denotes, if it fits in 32 bits. -/
def readWord32? (digits : List Char) : Option Nat :=
  if !digits.isEmpty && digits.all Char.isDigit then
    let n := Decimal.digitsValue digits
    if n < UInt32.size then some n else none
  else none

/-- The position that the most specific cause of a message ends in. -/
def location? (raw : String) : Option Location := do
  let (line, column) ← (splitPosition (deepestCause raw.toList)).2
  return ⟨← readWord32? line, ← readWord32? column⟩

/-- A message that something was expected: what, and what stood in its place. -/
structure Expectation where
  name : List Char
  got : Option (List Char)

/-- Reads `Expected "name"` and `Expected "name", but got got`. -/
def expectation? (text : List Char) : Option Expectation := do
  let text ← after? "Expected \"" text
  let name := text.takeWhile (· ≠ '"')
  if name.isEmpty then none
  match text.dropWhile (· ≠ '"') with
  | ['"'] => return ⟨name, none⟩
  | rest =>
    let got ← after? "\", but got " rest
    if got.isEmpty then none
    return ⟨name, some got⟩

/-- Words that are called keywords in messages. -/
def keywords : List String :=
  ["schema", "input", "value", "trait", "let", "do", "end", "on", "base", "import"]

def Expectation.wording (e : Expectation) : List Char :=
  let name := String.ofList e.name
  let what :=
    if name ∈ keywords then "Missing '" ++ name ++ "' keyword"
    else if name = ":" ∧ e.got.isSome then "Missing ':' before symbol"
    else "Missing '" ++ name ++ "'"
  what.toList ++ (e.got.map (", but got ".toList ++ ·)).getD []

/-- A text around the last place where `mark` stands with something after it. -/
def splitLast? (mark : String) : List Char → Option (List Char × List Char)
  | [] => none
  | c :: rest =>
    match splitLast? mark rest with
    | some (before, after) => some (c :: before, after)
    | none =>
      match after? mark (c :: rest) with
      | some (d :: after) => some ([], d :: after)
      | _ => none

/-- Rewords `Expected one of [names], but got got`: the brackets are dropped. -/
def alternatives? (text : List Char) : Option (List Char) := do
  let text ← after? "Expected one of [" text
  let (names, got) ← splitLast? "], but got " text
  if names.isEmpty then none
  return "Expected one of ".toList ++ names ++ ", but got ".toList ++ got

/-- Rewords the messages that speak of the reading as a whole. -/
def general? (text : List Char) : Option String :=
  if text = "Premature end of input".toList then some "Unexpected end of input"
  else if text = "Extra input after last repetition".toList ∨
      (after? "Don't know what to do with " text).isSome then
    some "Unexpected content after the end of the schema"
  else if (after? "Failed to match " text).isSome then some "Invalid syntax"
  else none

/-- A message of one line in friendly words; one that no rule knows stays as it is. -/
def rewordLine (text : List Char) : List Char :=
  ((expectation? text).map Expectation.wording)
    |>.or (alternatives? text)
    |>.or ((general? text).map String.toList)
    |>.getD text

end SchemaLang.Rewording

namespace SchemaLang

/-- A message in friendly words: its most specific cause, without the position that ends it. -/
def reword (raw : String) : String :=
  let line := (Rewording.splitPosition (Rewording.deepestCause raw.toList)).1
  String.ofList (Rewording.rewordLine (Text.trim line))

end SchemaLang
