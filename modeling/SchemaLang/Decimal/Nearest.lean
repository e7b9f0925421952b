namespace SchemaLang.Decimal

/-- The whole number nearest to `num / den`; a half goes to the even neighbour. -/
def roundDiv (num den : Nat) : Nat :=
  let whole := num / den
  let twice := 2 * (num % den)
  if den < twice ∨ (twice = den ∧ whole % 2 = 1) then whole + 1 else whole

/-- The power of two in units of which `num / den` has 53 binary digits, but no less than the unit
of the smallest doubles. -/
def binaryUnit (num den : Nat) : Int :=
  let up := num.log2
  let down := den.log2
  let reaches := den <<< (up - down) ≤ num <<< (down - up)
  let unit : Int := up - down - if reaches then 52 else 53
  max unit (-1074)

/-- The bits of the double nearest to the positive number `num / den`; a half goes to the even
neighbour, and what is too large goes to infinity. -/
def nearestBits (num den : Nat) : Nat :=
  let unit := binaryUnit num den
  let significand := roundDiv (num <<< (-unit).toNat) (den <<< unit.toNat)
  min (((unit + 1074).toNat <<< 52) + significand) (2047 <<< 52)

/-- The double nearest to `digits * 10 ^ exponent`. Far exponents are settled without the power:
they are beyond the largest double, or below half the smallest. -/
def nearest (digits : Nat) (exponent : Int) : Float :=
  let bits :=
    if digits = 0 then 0
    else if 400 < exponent then 2047 <<< 52
    else if exponent < -(400 + digits.log2 : Int) then 0
    else nearestBits (digits * Nat.pow 10 exponent.toNat) (Nat.pow 10 (-exponent).toNat)
  Float.ofBits bits.toUInt64

end SchemaLang.Decimal
