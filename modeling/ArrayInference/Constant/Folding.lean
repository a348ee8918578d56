import ArrayInference.Constant.Basic
import ArrayInference.Decimal.Remainder

/-!
# Folding of operators

What an operator gives on known constants, or nothing if it does not fold. Integers fold to the
exact result when that is in range. Floats fold as doubles. Operands of two different kinds never
fold.
-/

namespace ArrayInference

namespace Constant

/-- An integer constant, if the number is in its range. -/
def ofInt? (n : Int) : Option Constant :=
  if Int64.minValue.toInt ≤ n ∧ n ≤ Int64.maxValue.toInt then some (int (Int64.ofInt n)) else none

/-- A float constant. -/
def ofFloat (x : Float) : Constant :=
  float x.toBits

/-- A binary operator from its two versions. -/
def arithmetic (onInts : Int → Int → Option Int) (onFloats : UInt64 → UInt64 → Option UInt64)
    (a b : Constant) : Option Constant :=
  match a, b with
  | int x, int y => (onInts x.toInt y.toInt).bind ofInt?
  | float x, float y => (onFloats x y).map float
  | _, _ => none

/-- A binary operator on doubles as one on their bits. -/
def onBits (op : Float → Float → Float) (x y : UInt64) : Option UInt64 :=
  some (op (Float.ofBits x) (Float.ofBits y)).toBits

def add : Constant → Constant → Option Constant :=
  arithmetic (fun x y => some (x + y)) (onBits (· + ·))

def sub : Constant → Constant → Option Constant :=
  arithmetic (fun x y => some (x - y)) (onBits (· - ·))

def mul : Constant → Constant → Option Constant :=
  arithmetic (fun x y => some (x * y)) (onBits (· * ·))

/-- Division rounds down on integers. Nothing is divided by zero. -/
def div : Constant → Constant → Option Constant :=
  arithmetic (fun x y => if y = 0 then none else some (x.fdiv y))
    (fun x y => if Float.ofBits y == 0 then none else onBits (· / ·) x y)

/-- Whether the remainder of an integer division is defined: the divisor is not zero, and the
quotient is in range. -/
def remainderDefined (x y : Int) : Bool :=
  y ≠ 0 && !(x = Int64.minValue.toInt && y = -1)

/-- The remainder has the sign of the divisor. -/
def modulo : Constant → Constant → Option Constant :=
  arithmetic (fun x y => if remainderDefined x y then some (x.fmod y) else none)
    (fun x y =>
      if Float.ofBits y == 0 then none
      else
        let r := Decimal.truncatedRemainder x y
        let corrected := Float.ofBits r + Float.ofBits y
        let signsDiffer := (Float.ofBits r < 0) != (Float.ofBits y < 0)
        some (if (Float.ofBits r != 0) && signsDiffer then corrected.toBits else r))

/-- An exponent beyond this does not fold. -/
def exponentLimit : Int := Int.ofNat UInt32.size

/-- A base of magnitude at least two leaves the range of integers before this exponent. -/
def largestExponent : Nat := 64

/-- An integer power, if it can be in range. -/
def integerPower (x y : Int) : Option Int :=
  if y < 0 ∨ exponentLimit ≤ y then none
  else if x.natAbs ≤ 1 then some (if x = -1 then (if y % 2 = 0 then 1 else -1) else Int.pow x (min y.toNat 1))
  else if largestExponent < y then none
  else some (Int.pow x y.toNat)

def pow : Constant → Constant → Option Constant :=
  arithmetic integerPower (onBits Float.pow)

/-- The number itself. -/
def plus : Constant → Option Constant
  | int v => some (int v)
  | float b => some (float b)
  | _ => none

/-- The bits of a double with its sign changed. -/
def negateBits (bits : UInt64) : UInt64 :=
  bits ^^^ ((1 : UInt64) <<< 63)

def minus : Constant → Option Constant
  | int v => ofInt? (-v.toInt)
  | float b => some (float (negateBits b))
  | _ => none

/-- A function of one double. -/
def onFloat (op : Float → Float) : Constant → Option Constant
  | float b => some (ofFloat (op (Float.ofBits b)))
  | _ => none

/-- The order of two numbers of one kind. A float that is not a number has none. -/
def order? : Constant → Constant → Option Ordering
  | int x, int y => some (compare x.toInt y.toInt)
  | float x, float y =>
      let (x, y) := (Float.ofBits x, Float.ofBits y)
      if x < y then some .lt else if x == y then some .eq else if y < x then some .gt else none
  | _, _ => none

/-- A comparison of two numbers of one kind. -/
def compareBy (test : Ordering → Bool) (a b : Constant) : Option Constant :=
  (order? a b).map fun o => bool (test o)

def not : Constant → Option Constant
  | bool v => some (bool !v)
  | _ => none

/-- An operator on two booleans. -/
def logical (op : Bool → Bool → Bool) : Constant → Constant → Option Constant
  | bool x, bool y => some (bool (op x y))
  | _, _ => none

/-- A double without its fraction. -/
def truncate (x : Float) : Float :=
  if x < 0 then x.ceil else x.floor

/-- The bound of the integers a double is cast to: two to the power of sixty-three. -/
def castBound : Float := 9223372036854775808.0

/-- The integer below a finite double in magnitude, if it is in range; a negative one only where
`signed` holds. -/
def integerPart? (signed : Bool) (x : Float) : Option Constant :=
  let t := truncate x
  if x.isFinite && -castBound ≤ t && t < castBound && (signed || 0 ≤ t) then some (int t.toInt64)
  else none

/-- A number as a member of a number family. -/
def cast (target : Family) : Constant → Option Constant
  | int v =>
    match target with
    | .float => some (ofFloat v.toFloat)
    | .int => some (int v)
    | .uint => if 0 ≤ v.toInt then some (int v) else none
    | _ => none
  | float b =>
    match target with
    | .float => some (float b)
    | .int => integerPart? true (Float.ofBits b)
    | .uint => integerPart? false (Float.ofBits b)
    | _ => none
  | _ => none

end Constant

end ArrayInference
