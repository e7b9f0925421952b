namespace SchemaLang.Decimal

/-- A positive number `significand * 2 ^ unit`, with the reals that round to it: half a unit on
each side, but a quarter below where the doubles start to lie closer. -/
structure Rounded where
  significand : Nat
  unit : Int
  closeBelow : Bool

def Rounded.ofBits (bits : Nat) : Rounded :=
  let fraction : Nat := bits % (1 <<< 52)
  let scale : Nat := (bits >>> 52) % (1 <<< 11)
  if scale = 0 then ⟨fraction, -1074, false⟩
  else ⟨(1 <<< 52) + fraction, (scale : Int) - 1075, fraction = 0 ∧ 1 < scale⟩

/-- Four times a number over a common denominator: the number itself and the two ends of the reals
that round to it. -/
structure Interval where
  low : Nat
  value : Nat
  high : Nat
  den : Nat
  closed : Bool

def Rounded.interval (r : Rounded) : Interval :=
  let scale := 1 <<< r.unit.toNat
  { low := (4 * r.significand - if r.closeBelow then 1 else 2) * scale
    value := 4 * r.significand * scale
    high := (4 * r.significand + 2) * scale
    den := 4 <<< (-r.unit).toNat
    closed := r.significand % 2 = 0 }

/-- Whether `n * 10 ^ place` rounds to the number. -/
def Interval.holds (i : Interval) (n : Nat) (place : Int) : Bool :=
  let x := n * Nat.pow 10 place.toNat * i.den
  let shift := Nat.pow 10 (-place).toNat
  if i.closed then i.low * shift ≤ x && x ≤ i.high * shift
  else i.low * shift < x && x < i.high * shift

/-- The power of ten of the first digit. -/
def Interval.magnitude (i : Interval) : Int :=
  if i.den ≤ i.value then ((Nat.toDigits 10 (i.value / i.den)).length : Int) - 1
  else -((Nat.toDigits 10 ((i.den - 1) / i.value)).length : Int)

/-- The nearest to the number of its two neighbours among the multiples of `10 ^ place`, if one of
them rounds to it. Of two equally near the even one is taken. -/
def Interval.neighbour? (i : Interval) (place : Int) : Option Nat :=
  let num := i.value * Nat.pow 10 (-place).toNat
  let den := i.den * Nat.pow 10 place.toNat
  let below := num / den
  let twice := 2 * (num % den)
  let downFirst := twice < den ∨ (twice = den ∧ below % 2 = 0)
  let candidates := if downFirst then [below, below + 1] else [below + 1, below]
  candidates.find? fun n => i.holds n place

/-- Digits `n` and the power of ten of the last of them. -/
structure Digits where
  n : Nat
  place : Int

/-- The fewest digits that read back as the number: grids are tried from the coarsest. Seventeen
digits always do. -/
def Interval.shortest (i : Interval) : Digits :=
  let places := (List.range 17).map fun (k : Nat) => i.magnitude - k
  let hits := places.filterMap fun place => (i.neighbour? place).map (⟨·, place⟩)
  hits.headD ⟨0, 0⟩

/-- Digits from the first to the last that is not zero, and the power of ten of the first. -/
def Digits.normal (d : Digits) : List Char × Int :=
  let digits := Nat.toDigits 10 d.n
  ((digits.reverse.dropWhile (· = '0')).reverse, d.place + digits.length - 1)

end SchemaLang.Decimal
