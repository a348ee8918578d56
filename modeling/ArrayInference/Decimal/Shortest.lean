/-!
# Shortest decimals

A double is an interval of reals: all those that round to it. The shortest decimal of a double is
the decimal of fewest digits in that interval, and of several of that length the nearest to the
double. Everything here is exact arithmetic on natural numbers; the double enters as its bits.
-/

namespace ArrayInference.Decimal

/-- The three kinds of double, a finite one as `mantissa * 2 ^ exponent`. -/
inductive Magnitude where
  | notANumber
  | infinite
  | finite (mantissa : Nat) (exponent : Int)
deriving DecidableEq, Repr

/-- `2 ^ n`. -/
def twoTo (n : Nat) : Nat :=
  Nat.pow 2 n

/-- `10 ^ n`. -/
def tenTo (n : Nat) : Nat :=
  Nat.pow 10 n

/-- Bits 52 to 62. -/
def biasedExponent (bits : UInt64) : Nat :=
  bits.toNat / twoTo 52 % twoTo 11

/-- Bits 0 to 51. -/
def fraction (bits : UInt64) : Nat :=
  bits.toNat % twoTo 52

/-- Whether the sign bit is set. -/
def isNegative (bits : UInt64) : Bool :=
  twoTo 63 ≤ bits.toNat

/-- The absolute value of the double with these bits. -/
def magnitude (bits : UInt64) : Magnitude :=
  if biasedExponent bits = 2047 then
    if fraction bits = 0 then .infinite else .notANumber
  else if biasedExponent bits = 0 then .finite (fraction bits) (-1074)
  else .finite (twoTo 52 + fraction bits) (biasedExponent bits - 1075)

/-- The reals from `low / scale` to `high / scale`, with the double itself at `centre / scale`. The
ends belong to the interval when `closed` holds. -/
structure Interval where
  scale : Nat
  low : Nat
  centre : Nat
  high : Nat
  closed : Bool
deriving DecidableEq, Repr

/-- The reals that round to `mantissa * 2 ^ exponent`, counted in quarters of a unit of the last
place. They reach half way to the two neighbours, and the neighbour below a power of two is only
half as far. A tie rounds to the even mantissa. -/
def Interval.around (mantissa : Nat) (exponent : Int) : Interval :=
  let unit := twoTo (exponent - 2).toNat
  let below := if mantissa = twoTo 52 ∧ -1074 < exponent then 1 else 2
  { scale := twoTo (2 - exponent).toNat
    low := (4 * mantissa - below) * unit
    centre := 4 * mantissa * unit
    high := (4 * mantissa + 2) * unit
    closed := mantissa % 2 = 0 }

/-- The same reals counted in units of `10 ^ exponent`. -/
def Interval.onGrid (i : Interval) (exponent : Int) : Interval :=
  let finer := tenTo (-exponent).toNat
  { scale := i.scale * tenTo exponent.toNat
    low := i.low * finer
    centre := i.centre * finer
    high := i.high * finer
    closed := i.closed }

/-- Whether a whole number of units lies in the interval. -/
def Interval.contains (i : Interval) (n : Nat) : Bool :=
  let value := n * i.scale
  if i.closed then i.low ≤ value && value ≤ i.high else i.low < value && value < i.high

/-- The whole number in the interval that is nearest to the double, if there is one. Only the two
neighbours of the double are candidates, and a tie goes up. -/
def Interval.nearest? (i : Interval) : Option Nat :=
  let below := i.centre / i.scale
  let above := below + 1
  match i.contains below, i.contains above with
  | true, true => some (if 2 * (i.centre - below * i.scale) < i.scale then below else above)
  | true, false => some below
  | false, true => some above
  | false, false => none

/-- The number of decimal digits of a positive number. -/
def digitCount (n : Nat) : Nat :=
  (Nat.toDigits 10 n).length

/-- The exponent of the leading decimal digit of `centre / scale`. -/
def Interval.leading (i : Interval) : Int :=
  if i.scale ≤ i.centre then digitCount (i.centre / i.scale) - 1
  else -(digitCount ((i.scale - 1) / i.centre) : Int)

/-- Seventeen digits tell any two doubles apart. -/
def maxDigits : Nat := 17

/-- The fewest digits that read back as the double, as a whole number and the power of ten of its
last digit. -/
def shortest (mantissa : Nat) (exponent : Int) : Nat × Int :=
  let i := Interval.around mantissa exponent
  let hit := (List.range maxDigits).findSome? fun (n : Nat) =>
    let last := i.leading - n
    (i.onGrid last).nearest?.map fun digits => (digits, last)
  hit.getD (0, 0)

end ArrayInference.Decimal
