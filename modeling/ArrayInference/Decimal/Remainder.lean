import ArrayInference.Decimal.Shortest

/-!
# Remainder of doubles

The remainder of a division that truncates: the dividend less the divisor times the integer part of
the quotient. It has the sign of the dividend, it is smaller than the divisor, and it is always a
double, so no rounding takes place.
-/

namespace ArrayInference.Decimal

/-- The sign bit. -/
def signBit (bits : UInt64) : UInt64 :=
  bits &&& ((1 : UInt64) <<< 63)

/-- The bits of `mantissa * 2 ^ exponent`, where the mantissa has at most 53 bits and the exponent is
not below that of the smallest double. -/
def packBits (mantissa : Nat) (exponent : Int) : UInt64 :=
  if mantissa = 0 then 0
  else
    let shift := min (52 - Nat.log2 mantissa) (exponent + 1074).toNat
    let m := mantissa * twoTo shift
    let e := exponent - shift
    if m < twoTo 52 then m.toUInt64
    else (((e + 1075).toNat * twoTo 52) + (m - twoTo 52)).toUInt64

/-- The double that is not a number. -/
def notANumberBits : UInt64 := 0x7ff8000000000000

/-- The remainder of a division that truncates. -/
def truncatedRemainder (x y : UInt64) : UInt64 :=
  match magnitude x, magnitude y with
  | .finite m e, .finite n f =>
    if n = 0 then notANumberBits
    else
      let low := min e f
      let r := (m * twoTo (e - low).toNat) % (n * twoTo (f - low).toNat)
      signBit x ||| packBits r low
  | .finite .., .infinite => x
  | _, _ => notANumberBits

end ArrayInference.Decimal
