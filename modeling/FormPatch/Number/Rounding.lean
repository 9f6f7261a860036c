/-!
# Rounding a quotient

A quotient of natural numbers is rounded to the nearest natural number, and a quotient halfway
between two goes to the even one. Main statement: a quotient without remainder is kept.
-/

namespace FormPatch.Number

/-- The natural number nearest to `numerator / denominator`; halves go to the even neighbour. -/
def roundHalfEven (numerator denominator : Nat) : Nat :=
  let whole := numerator / denominator
  let rest := numerator % denominator
  if 2 * rest < denominator then whole
  else if denominator < 2 * rest then whole + 1
  else whole + whole % 2

/-- A quotient without remainder rounds to itself. -/
theorem roundHalfEven_mul (value denominator : Nat) (positive : 0 < denominator) :
    roundHalfEven (value * denominator) denominator = value := by
  simp [roundHalfEven, Nat.mul_div_cancel _ positive, positive]

end FormPatch.Number
