import ArrayInference.Decimal.Shortest

/-!
# Decimal layout of doubles

How the digits of a double are laid out. The choices of a format are one record, and the layout
follows it for every double.
-/

namespace ArrayInference.Decimal

/-- The choices of a format: the exponents of the leading digit that are written positionally, and
the texts of the values without digits. -/
structure Layout where
  lowest : Int
  highest : Int
  notANumber : String
  infinity : String
  zero : String

/-- Positional from a ten-thousandth up to sixteen digits before the point; a whole number keeps
one zero after the point. -/
def Layout.standard : Layout :=
  { lowest := -4, highest := 15, notANumber := "NaN", infinity := "inf", zero := "0.0" }

/-- The digits of a number without the zeros at its end. -/
def significantDigits (n : Nat) : List Char :=
  ((Nat.toDigits 10 n).reverse.dropWhile (· = '0')).reverse

/-- Digits written with a point, the leading digit standing for `10 ^ leading`. -/
def positional (digits : List Char) (leading : Int) : List Char :=
  if leading < 0 then
    '0' :: '.' :: (List.replicate (-leading - 1).toNat '0' ++ digits)
  else
    let whole := leading.toNat + 1
    let padded := digits ++ List.replicate (whole - digits.length) '0'
    let rest := padded.drop whole
    padded.take whole ++ '.' :: (if rest.isEmpty then ['0'] else rest)

/-- Digits written with an exponent: one digit before the point, and no point without digits after
it. -/
def scientific (digits : List Char) (leading : Int) : List Char :=
  let head := digits.take 1
  let rest := digits.drop 1
  let point := if rest.isEmpty then [] else '.' :: rest
  head ++ point ++ 'e' :: (toString leading).toList

/-- The text of a double given by its bits. -/
def Layout.text (format : Layout) (bits : UInt64) : String :=
  let sign := if isNegative bits then "-" else ""
  match magnitude bits with
  | .notANumber => format.notANumber
  | .infinite => sign ++ format.infinity
  | .finite 0 _ => sign ++ format.zero
  | .finite mantissa exponent =>
      let (number, last) := shortest mantissa exponent
      let leading := last + digitCount number - 1
      let digits := significantDigits number
      let place := if format.lowest ≤ leading ∧ leading ≤ format.highest then positional else scientific
      sign ++ String.ofList (place digits leading)

/-- The standard text of a double. -/
def doubleText (bits : UInt64) : String :=
  Layout.standard.text bits

end ArrayInference.Decimal
