import SchemaLang.Decimal.Nearest

namespace SchemaLang.Decimal

def digitsValue (digits : List Char) : Nat :=
  digits.foldl (fun n d => 10 * n + (d.toNat - '0'.toNat)) 0

/-- A sign, if the text starts with one, and what follows it. The flag tells a minus. -/
def splitSign : List Char → Bool × List Char
  | '-' :: rest => (true, rest)
  | '+' :: rest => (false, rest)
  | text => (false, text)

/-- The whole number that a text of digits denotes, with or without a sign. -/
def readInt? (text : List Char) : Option Int :=
  let (negative, digits) := splitSign text
  if digits.isEmpty || !digits.all Char.isDigit then none
  else
    let n : Int := digitsValue digits
    some (if negative then -n else n)

/-- The word of 64 bits that a text of digits denotes, if it fits. -/
def readInt64? (text : List Char) : Option Int64 := do
  let n ← readInt? text
  if Int64.minValue.toInt ≤ n ∧ n ≤ Int64.maxValue.toInt then some (Int64.ofInt n) else none

/-- The power of ten after a numeral: nothing, or a mark and a whole number. -/
def readExponent? : List Char → Option Int
  | [] => some 0
  | mark :: rest => if mark.toLower = 'e' then readInt? rest else none

/-- A decimal without its sign: digits with perhaps a point among them, and perhaps a power of
ten. -/
def readUnsigned? (text : List Char) : Option Float :=
  let whole := text.takeWhile Char.isDigit
  let (places, rest) :=
    match text.dropWhile Char.isDigit with
    | '.' :: rest => (rest.takeWhile Char.isDigit, rest.dropWhile Char.isDigit)
    | rest => ([], rest)
  if whole.isEmpty && places.isEmpty then none
  else do
    let exponent ← readExponent? rest
    return nearest (digitsValue (whole ++ places)) (exponent - places.length)

/-- The double nearest to the decimal that a text denotes, or the infinity or the NaN that it
names in any case. -/
def readFloat? (text : List Char) : Option Float :=
  let (negative, rest) := splitSign text
  let size :=
    match String.ofList (rest.map Char.toLower) with
    | "inf" | "infinity" => some (1.0 / 0.0)
    | "nan" => some (0.0 / 0.0)
    | _ => readUnsigned? rest
  size.map fun x => if negative then -x else x

end SchemaLang.Decimal
