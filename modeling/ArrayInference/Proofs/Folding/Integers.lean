import ArrayInference.Constant.Folding
import Mathlib.Algebra.Ring.Parity
import Mathlib.Data.Rat.Floor

/-!
# Integers fold exactly

An operator on integer constants folds to the exact result, rounded down where it divides, and does not
fold where that is out of range. Integer constants are words, and a machine divides words with rounding
toward zero. So it lowers a quotient that was rounded up by one afterwards, and adds the divisor to a
remainder of the other sign. Neither correction leaves the range. Main statement: `folds_exactly`.
-/

namespace ArrayInference

/-- An integer that an integer constant can hold. -/
def InRange (n : Int) : Prop :=
  -2 ^ 63 ≤ n ∧ n < 2 ^ 63

theorem inRange_toInt (x : Int64) : InRange x.toInt :=
  ⟨x.le_toInt, x.toInt_lt⟩

/-- A word operation that goes by the exact result stays exact as long as that is in range. -/
theorem bmod_of_inRange {n : Int} (h : InRange n) : n.bmod (2 ^ 64) = n := by
  obtain ⟨low, high⟩ := h
  apply Int.bmod_eq_of_le_mul_two <;> omega

/-! ## Division with two ways of rounding -/

theorem floor_div_eq_fdiv (a b : Int) : ⌊(a : ℚ) / b⌋ = a.fdiv b := by
  have nonneg (a : Int) {b : Int} (hb : 0 ≤ b) : ⌊(a : ℚ) / b⌋ = a.fdiv b := by
    lift b to Nat using hb
    rw [Int.fdiv_eq_ediv_of_nonneg a (Int.natCast_nonneg b)]
    exact Rat.floor_intCast_div_natCast a b
  rcases Int.le_total 0 b with hb | hb
  · exact nonneg a hb
  · have flipped := nonneg (-a) (b := -b) (by omega)
    rw [Int.neg_fdiv_neg, Int.cast_neg, Int.cast_neg, neg_div_neg_eq] at flipped
    exact flipped

/-- A remainder of truncated division has the sign of the dividend. -/
theorem tmod_neg_iff {a b : Int} (h : a.tmod b ≠ 0) : a.tmod b < 0 ↔ a < 0 := by
  have above := Int.tmod_nonneg (a := a) b
  have below := Int.tmod_nonneg (a := -a) b
  rw [Int.neg_tmod] at below
  omega

/-- A truncated quotient is one too large if there is a remainder and the signs differ. -/
theorem fdiv_eq_ite {a b : Int} (hb : b ≠ 0) :
    a.fdiv b = if a.tmod b ≠ 0 ∧ ¬(a < 0 ↔ b < 0) then a.tdiv b - 1 else a.tdiv b := by
  rw [Int.fdiv_eq_tdiv]
  simp only [Int.dvd_iff_tmod_eq_zero]
  rcases Int.lt_or_gt_of_ne hb with neg | pos
  · rw [Int.sign_eq_neg_one_of_neg neg]
    grind
  · rw [Int.sign_eq_one_of_pos pos]
    grind

/-- A truncated remainder lacks the divisor if it has another sign. -/
theorem fmod_eq_ite {a b : Int} (hb : b ≠ 0) :
    a.fmod b = if a.tmod b ≠ 0 ∧ ¬(a.tmod b < 0 ↔ b < 0) then a.tmod b + b else a.tmod b := by
  have truncated : a.tmod b = a - b * a.tdiv b := Int.tmod_def a b
  rw [Int.fmod_def, fdiv_eq_ite hb]
  by_cases exact_division : a.tmod b = 0
  · simp [exact_division]
    omega
  · simp only [tmod_neg_iff exact_division]
    split
    · rw [Int.mul_sub]
      omega
    · omega

/-- Only the quotient of the least integer and minus one is out of range. -/
theorem inRange_fdiv {a b : Int} (ha : InRange a) (h : ¬(a = -2 ^ 63 ∧ b = -1)) :
    InRange (a.fdiv b) := by
  obtain ⟨low, high⟩ := ha
  have size := Int.natAbs_fdiv_le_natAbs a b
  -- No quotient is larger than its dividend. So all that is left to exclude is the magnitude of the least
  -- integer with a plus sign.
  have not_above : a.fdiv b ≠ 2 ^ 63 := by
    intro equal
    rcases Int.lt_trichotomy b 0 with neg | rfl | pos
    · have divided := Int.fmod_add_mul_fdiv (-a) (-b)
      have nonneg := Int.fmod_nonneg_of_pos (-a) (b := -b) (by omega)
      rw [Int.neg_fdiv_neg, equal] at divided
      omega
    · simp at equal
    · have divided := Int.fmod_add_mul_fdiv a b
      have nonneg := Int.fmod_nonneg_of_pos a pos
      rw [equal] at divided
      omega
  constructor <;> omega

theorem inRange_fmod {a b : Int} (hb : InRange b) (h : b ≠ 0) : InRange (a.fmod b) := by
  obtain ⟨low, high⟩ := hb
  rcases Int.lt_or_gt_of_ne h with neg | pos
  · have nonneg := Int.fmod_nonneg_of_pos (-a) (b := -b) (by omega)
    have below := Int.fmod_lt_of_pos (-a) (b := -b) (by omega)
    rw [Int.fmod_def, Int.neg_fdiv_neg, Int.neg_mul] at nonneg below
    rw [Int.fmod_def]
    constructor <;> omega
  · have nonneg := Int.fmod_nonneg_of_pos a pos
    have below := Int.fmod_lt_of_pos a pos
    constructor <;> omega

/-! ## Division of words -/

namespace Word

variable {x y : Int64}

/-- A division that a machine carries out: not one by zero, and not the one with a quotient that is out
of range. -/
def Divides (x y : Int64) : Prop :=
  y ≠ 0 ∧ ¬(x = Int64.minValue ∧ y = -1)

instance : Decidable (Divides x y) :=
  inferInstanceAs (Decidable (_ ∧ _))

/-- Whether the quotient has been rounded up. -/
def RoundsUp (x y : Int64) : Prop :=
  x % y ≠ 0 ∧ ¬(x < 0 ↔ y < 0)

instance : Decidable (RoundsUp x y) :=
  inferInstanceAs (Decidable (_ ∧ _))

/-- The quotient rounded down. -/
def quotient (x y : Int64) : Int64 :=
  if RoundsUp x y then x / y - 1 else x / y

/-- Whether the remainder has another sign than the divisor. -/
def Differs (x y : Int64) : Prop :=
  x % y ≠ 0 ∧ ¬(x % y < 0 ↔ y < 0)

instance : Decidable (Differs x y) :=
  inferInstanceAs (Decidable (_ ∧ _))

/-- The remainder with the sign of the divisor. -/
def remainder (x y : Int64) : Int64 :=
  if Differs x y then x % y + y else x % y

theorem toInt_ne_zero (h : y ≠ 0) : y.toInt ≠ 0 := by
  rw [← Int64.toInt_zero, ne_eq, Int64.toInt_inj]
  exact h

theorem divides_iff : Divides x y ↔ y.toInt ≠ 0 ∧ ¬(x.toInt = -2 ^ 63 ∧ y.toInt = -1) := by
  rw [Divides, ne_eq, ← Int64.toInt_inj, ← Int64.toInt_inj, ← Int64.toInt_inj (x := y),
    Int64.toInt_minValue]
  rfl

theorem roundsUp_iff :
    RoundsUp x y ↔ x.toInt.tmod y.toInt ≠ 0 ∧ ¬(x.toInt < 0 ↔ y.toInt < 0) := by
  rw [RoundsUp, ne_eq, ← Int64.toInt_inj, Int64.toInt_mod, Int64.lt_iff_toInt_lt,
    Int64.lt_iff_toInt_lt]
  rfl

theorem differs_iff :
    Differs x y ↔ x.toInt.tmod y.toInt ≠ 0 ∧ ¬(x.toInt.tmod y.toInt < 0 ↔ y.toInt < 0) := by
  rw [Differs, ne_eq, ← Int64.toInt_inj, Int64.lt_iff_toInt_lt, Int64.lt_iff_toInt_lt, Int64.toInt_mod]
  rfl

theorem toInt_div (h : Divides x y) : (x / y).toInt = x.toInt.tdiv y.toInt := by
  by_cases hx : x = Int64.minValue
  · exact Int64.toInt_div_of_ne_right x y fun hy => h.2 ⟨hx, hy⟩
  · exact Int64.toInt_div_of_ne_left x y hx

/-- A quotient that is lowered stays in range. -/
theorem toInt_lowered (h : Divides x y) (up : RoundsUp x y) : (x / y - 1).toInt = (x / y).toInt - 1 := by
  have range := inRange_fdiv (inRange_toInt x) (divides_iff.mp h).2
  rw [fdiv_eq_ite (divides_iff.mp h).1, if_pos (roundsUp_iff.mp up), ← toInt_div h] at range
  rw [Int64.toInt_sub, Int64.toInt_one, bmod_of_inRange range]

/-- A remainder that is raised stays in range. -/
theorem toInt_raised (h : Divides x y) (differs : Differs x y) :
    (x % y + y).toInt = (x % y).toInt + y.toInt := by
  have range := inRange_fmod (a := x.toInt) (inRange_toInt y) (divides_iff.mp h).1
  rw [fmod_eq_ite (divides_iff.mp h).1, if_pos (differs_iff.mp differs), ← Int64.toInt_mod] at range
  rw [Int64.toInt_add, bmod_of_inRange range]

theorem toInt_quotient (h : Divides x y) : (quotient x y).toInt = x.toInt.fdiv y.toInt := by
  rw [quotient, fdiv_eq_ite (divides_iff.mp h).1, ← toInt_div h]
  by_cases up : RoundsUp x y
  · rw [if_pos up, if_pos (roundsUp_iff.mp up), toInt_lowered h up]
  · rw [if_neg up, if_neg (roundsUp_iff.not.mp up)]

theorem toInt_remainder (h : Divides x y) : (remainder x y).toInt = x.toInt.fmod y.toInt := by
  rw [remainder, fmod_eq_ite (divides_iff.mp h).1, ← Int64.toInt_mod]
  by_cases differs : Differs x y
  · rw [if_pos differs, if_pos, toInt_raised h differs]
    exact Int64.toInt_mod x y ▸ differs_iff.mp differs
  · rw [if_neg differs, if_neg]
    exact Int64.toInt_mod x y ▸ differs_iff.not.mp differs

end Word

/-! ## Operators on integer constants -/

namespace Constant

/-- An operator folds exactly where `defined` holds, and then to the integer `n`. -/
structure FoldsTo (result : Option Constant) (defined : Prop) (n : Int) : Prop where
  isSome_iff : result.isSome = true ↔ defined
  exact_value : ∀ c, result = some c → ∃ z : Int64, c = .int z ∧ z.toInt = n

theorem FoldsTo.congr {result : Option Constant} {p q : Prop} {n : Int} (h : FoldsTo result p n)
    (same : p ↔ q) : FoldsTo result q n :=
  ⟨h.isSome_iff.trans same, h.exact_value⟩

theorem range_iff {n : Int} : Int64.minValue.toInt ≤ n ∧ n ≤ Int64.maxValue.toInt ↔ InRange n := by
  rw [Int64.toInt_minValue, Int64.toInt_maxValue, InRange]
  omega

theorem ofInt?_toInt (z : Int64) : ofInt? z.toInt = some (.int z) := by
  rw [ofInt?, if_pos (range_iff.mpr (inRange_toInt z)), Int64.ofInt_toInt]

/-- An integer is a constant exactly if it is in range. -/
theorem foldsTo_ofInt? (n : Int) : FoldsTo (ofInt? n) (InRange n) n := by
  rw [ofInt?]
  by_cases h : InRange n
  · rw [if_pos (range_iff.mpr h)]
    refine ⟨by simp [h], ?_⟩
    rintro _ ⟨⟩
    exact ⟨_, rfl, Int64.toInt_ofInt_of_le h.1 h.2⟩
  · rw [if_neg (range_iff.not.mpr h)]
    exact ⟨by simp [h], by simp⟩

/-- An operator that gives an integer under a condition folds if that is met and the integer is in
range. -/
theorem foldsTo_of_condition {p : Prop} [Decidable p] {n : Int} :
    FoldsTo ((if p then some n else none).bind ofInt?) (p ∧ InRange n) n := by
  by_cases h : p
  · rw [if_pos h]
    exact (foldsTo_ofInt? n).congr (by simp [h])
  · rw [if_neg h]
    exact ⟨by simp [h], by simp⟩

/-! ### Quotients and remainders -/

theorem div_int (x y : Int64) :
    Constant.div (int x) (int y)
      = (if y ≠ 0 then some (x.toInt.fdiv y.toInt) else none).bind ofInt? := by
  have zero : y = 0 ↔ y.toInt = 0 := by
    rw [← Int64.toInt_inj]
    rfl
  show (if y.toInt = 0 then none else some (x.toInt.fdiv y.toInt)).bind ofInt? = _
  simp only [ne_eq, zero, ite_not]

theorem modulo_int (x y : Int64) :
    Constant.modulo (int x) (int y)
      = (if Word.Divides x y then some (x.toInt.fmod y.toInt) else none).bind ofInt? := by
  have defined : remainderDefined x.toInt y.toInt = true ↔ Word.Divides x y := by
    rw [Word.divides_iff, remainderDefined, Int64.toInt_minValue]
    grind
  show (if remainderDefined x.toInt y.toInt = true then some (x.toInt.fmod y.toInt) else none).bind ofInt?
    = _
  simp only [defined]

/-- The quotient that a machine finds. -/
theorem div_int_eq_quotient (x y : Int64) :
    Constant.div (int x) (int y)
      = if Word.Divides x y then some (int (Word.quotient x y)) else none := by
  by_cases h : Word.Divides x y
  · rw [if_pos h, div_int, if_pos h.1, ← Word.toInt_quotient h]
    exact ofInt?_toInt _
  · rw [if_neg h, div_int]
    by_cases hy : y = 0
    · rw [if_neg (not_not.mpr hy)]
      rfl
    · obtain ⟨rfl, rfl⟩ : x = Int64.minValue ∧ y = -1 := by
        by_contra other
        exact h ⟨hy, other⟩
      decide

/-- The remainder that a machine finds. -/
theorem modulo_int_eq_remainder (x y : Int64) :
    Constant.modulo (int x) (int y)
      = if Word.Divides x y then some (int (Word.remainder x y)) else none := by
  rw [modulo_int]
  by_cases h : Word.Divides x y
  · rw [if_pos h, if_pos h, ← Word.toInt_remainder h]
    exact ofInt?_toInt _
  · rw [if_neg h, if_neg h]
    rfl

/-! ### Powers -/

theorem not_inRange_pow {a : Int} {n : Nat} (ha : 2 ≤ a.natAbs) (hn : 64 < n) : ¬InRange (a ^ n) := by
  have large : 2 ^ 64 ≤ (a ^ n).natAbs := by
    rw [Int.natAbs_pow]
    calc 2 ^ 64 ≤ 2 ^ n := Nat.pow_le_pow_right (by decide) (by omega)
      _ ≤ a.natAbs ^ n := Nat.pow_le_pow_left ha n
  rintro ⟨low, high⟩
  omega

/-- The powers of minus one, zero and one need no multiplication. -/
theorem smallPower_eq {a : Int} (ha : a.natAbs ≤ 1) (n : Nat) :
    (if a = -1 then (if (n : Int) % 2 = 0 then 1 else -1) else Int.pow a (min n 1)) = a ^ n := by
  obtain rfl | rfl | rfl : a = -1 ∨ a = 0 ∨ a = 1 := by omega
  · rcases Nat.even_or_odd n with even | odd
    · rw [even.neg_one_pow]
      have := Nat.even_iff.mp even
      simp
      omega
    · rw [odd.neg_one_pow]
      have := Nat.odd_iff.mp odd
      simp
      omega
  · cases n <;> simp
  · simp

/-- The power is given if the exponent is one, and if the power has a chance to be in range. -/
theorem integerPower_eq (a b : Int) :
    integerPower a b
      = if (0 ≤ b ∧ b < 2 ^ 32) ∧ ¬(2 ≤ a.natAbs ∧ 64 < b.toNat) then some (a ^ b.toNat) else none := by
  have limit : exponentLimit = 2 ^ 32 := rfl
  rw [integerPower, limit]
  by_cases outside : b < 0 ∨ 2 ^ 32 ≤ b
  · rw [if_pos outside, if_neg (by omega)]
  · rw [if_neg outside]
    lift b to Nat using by omega
    simp only [Int.toNat_natCast]
    by_cases small : a.natAbs ≤ 1
    · rw [if_pos small, smallPower_eq small, if_pos (by omega)]
    · rw [if_neg small, largestExponent]
      by_cases far : ((64 : Nat) : Int) < b
      · rw [if_pos far, if_neg (by omega)]
      · rw [if_neg far, if_pos (by omega)]
        rfl

/-- What operators on two integer constants fold to, and how a machine finds it. -/
structure ExactIntegers (x y : Int64) : Prop where
  add : FoldsTo (Constant.add (int x) (int y)) (InRange (x.toInt + y.toInt)) (x.toInt + y.toInt)
  sub : FoldsTo (Constant.sub (int x) (int y)) (InRange (x.toInt - y.toInt)) (x.toInt - y.toInt)
  mul : FoldsTo (Constant.mul (int x) (int y)) (InRange (x.toInt * y.toInt)) (x.toInt * y.toInt)
  minus : FoldsTo (Constant.minus (int x)) (InRange (-x.toInt)) (-x.toInt)
  div : FoldsTo (Constant.div (int x) (int y))
    (y ≠ 0 ∧ InRange ⌊(x.toInt : ℚ) / y.toInt⌋) ⌊(x.toInt : ℚ) / y.toInt⌋
  modulo : FoldsTo (Constant.modulo (int x) (int y)) (y ≠ 0 ∧ ¬(x = Int64.minValue ∧ y = -1))
    (x.toInt - y.toInt * ⌊(x.toInt : ℚ) / y.toInt⌋)
  pow : FoldsTo (Constant.pow (int x) (int y))
    (0 ≤ y.toInt ∧ y.toInt < 2 ^ 32 ∧ InRange (x.toInt ^ y.toInt.toNat)) (x.toInt ^ y.toInt.toNat)
  /-- Quotients are found by truncated division. -/
  quotient : Constant.div (int x) (int y)
    = if Word.Divides x y then some (int (Word.quotient x y)) else none
  /-- Remainders are found by truncated division. -/
  remainder : Constant.modulo (int x) (int y)
    = if Word.Divides x y then some (int (Word.remainder x y)) else none
  /-- Lowering a quotient does not overflow. -/
  lowered : Word.Divides x y → Word.RoundsUp x y → (x / y - 1).toInt = (x / y).toInt - 1
  /-- Raising a remainder does not overflow. -/
  raised : Word.Divides x y → Word.Differs x y → (x % y + y).toInt = (x % y).toInt + y.toInt

/-- Whatever the two integers are, operators on them fold exactly where the exact result is in range, and
to that. -/
theorem folds_exactly (x y : Int64) : ExactIntegers x y where
  add := foldsTo_ofInt? (x.toInt + y.toInt)
  sub := foldsTo_ofInt? (x.toInt - y.toInt)
  mul := foldsTo_ofInt? (x.toInt * y.toInt)
  minus := foldsTo_ofInt? (-x.toInt)
  div := by
    rw [floor_div_eq_fdiv, div_int]
    exact foldsTo_of_condition
  modulo := by
    rw [floor_div_eq_fdiv, ← Int.fmod_def, modulo_int]
    refine foldsTo_of_condition.congr (and_iff_left_of_imp fun h => ?_)
    exact inRange_fmod (inRange_toInt y) (Word.divides_iff.mp h).1
  pow := by
    show FoldsTo ((integerPower x.toInt y.toInt).bind ofInt?) _ _
    rw [integerPower_eq]
    refine foldsTo_of_condition.congr ?_
    rw [and_assoc, and_assoc]
    refine and_congr_right fun _ => and_congr_right fun _ => and_iff_right_of_imp fun inRange => ?_
    exact fun far => not_inRange_pow far.1 far.2 inRange
  quotient := div_int_eq_quotient x y
  remainder := modulo_int_eq_remainder x y
  lowered := Word.toInt_lowered
  raised := Word.toInt_raised

end Constant

end ArrayInference
