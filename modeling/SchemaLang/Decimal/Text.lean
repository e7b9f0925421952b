import SchemaLang.Decimal.Shortest

namespace SchemaLang.Decimal

/-- Which powers of ten of the first digit are written without an exponent. -/
structure Style where
  least : Int
  greatest : Int

/-- Numbers from `0.00001` to below `10 ^ 16` are written in full. -/
def plainStyle : Style := ⟨-5, 15⟩

def positional (digits : List Char) (magnitude : Int) : List Char :=
  if magnitude < 0 then
    '0' :: '.' :: List.replicate (-magnitude - 1).toNat '0' ++ digits
  else
    let width := magnitude.toNat + 1
    let whole := digits.take width ++ List.replicate (width - digits.length) '0'
    let places := digits.drop width
    whole ++ '.' :: if places.isEmpty then ['0'] else places

/-- One digit, the others after a point, and a signed exponent. -/
def scientific (digits : List Char) (magnitude : Int) : List Char :=
  let places := digits.drop 1
  digits.take 1 ++ (if places.isEmpty then [] else '.' :: places) ++
    ['e', if magnitude < 0 then '-' else '+'] ++ Nat.toDigits 10 magnitude.natAbs

/-- The text of a finite double: the fewest digits that read back as it. -/
def Style.write (style : Style) (x : Float) : String :=
  let bits := x.toBits.toNat
  let sign := if bits >>> 63 = 1 then ['-'] else []
  let size :=
    if bits % (1 <<< 63) = 0 then positional ['0'] 0
    else
      let (digits, magnitude) := (Rounded.ofBits bits).interval.shortest.normal
      if style.least ≤ magnitude ∧ magnitude ≤ style.greatest then positional digits magnitude
      else scientific digits magnitude
  String.ofList (sign ++ size)

end SchemaLang.Decimal
