import FormPatch.Number.Power
import FormPatch.Text.Digits

/-!
# Decimal fractions

A number written with decimal digits and at most one point, without an exponent. The number of
places is kept, so `2.50` and `2.5` are two decimals of one value.
-/

namespace FormPatch.Number

/-- The number `coefficient / 10 ^ places`. -/
structure Decimal where
  /-- All digits, those after the point included, read as one number. -/
  coefficient : Nat
  /-- How many of the digits stand after the point. -/
  places : Nat
deriving DecidableEq, Repr

namespace Decimal

/-- The decimal that is written as a run of digits before the point and a run after it. -/
def ofDigits (whole fraction : List Char) : Decimal :=
  ⟨Text.valueOf 10 (whole ++ fraction), fraction.length⟩

/-- The digits of the coefficient, with zeros in front until one digit stands before the point. -/
def digits (decimal : Decimal) : List Char :=
  let shown := Nat.toDigits 10 decimal.coefficient
  List.replicate (decimal.places + 1 - shown.length) '0' ++ shown

/-- The digits before the point. -/
def whole (decimal : Decimal) : List Char :=
  decimal.digits.take (decimal.digits.length - decimal.places)

/-- The digits after the point. -/
def fraction (decimal : Decimal) : List Char :=
  decimal.digits.drop (decimal.digits.length - decimal.places)

/-- The written form; a point stands only before digits. -/
def text (decimal : Decimal) : List Char :=
  if decimal.places = 0 then decimal.whole
  else decimal.whole ++ '.' :: decimal.fraction

/-- The value with `cut` more powers of ten, which first use up places. -/
def scale (decimal : Decimal) (cut : Nat) : Decimal :=
  ⟨decimal.coefficient * 10 ^ (cut - decimal.places), decimal.places - cut⟩

/-- The same value without zeros at the end of the fraction. -/
def trim : Nat → Nat → Decimal
  | coefficient, 0 => ⟨coefficient, 0⟩
  | coefficient, places + 1 =>
    if coefficient % 10 = 0 then trim (coefficient / 10) places else ⟨coefficient, places + 1⟩

end Decimal

end FormPatch.Number
