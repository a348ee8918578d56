import ArrayInference.Decimal.Shortest

/-!
# The range of the doubles

A decimal rounds to the nearest double, and to infinity from the point halfway between the largest
double and the power of two after it. Whether a decimal stays below that point is a comparison of
whole numbers; the number of its digits decides all but the close cases, so that a large exponent
is never expanded.
-/

namespace ArrayInference.Decimal

/-- The least number that is too large for a double. -/
def overflowPoint : Nat := twoTo 1024 - twoTo 970

/-- Whether `digits * 10 ^ exponent` rounds to a finite double. -/
def isInRange (digits : Nat) (exponent : Int) : Bool :=
  let places := digitCount digits + exponent
  if digits = 0 || places < digitCount overflowPoint then true
  else if digitCount overflowPoint < places then false
  else digits * tenTo exponent.toNat < overflowPoint * tenTo (-exponent).toNat

end ArrayInference.Decimal
