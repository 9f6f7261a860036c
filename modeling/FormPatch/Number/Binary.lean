import FormPatch.Number.Decimal
import FormPatch.Number.Rounding

/-!
# Binary floating-point numbers

A number of a binary interchange format is kept as its sign and its *magnitude*: the rest of its
bit pattern, read as one natural number. Magnitudes are ordered as the absolute values they stand
for. All arithmetic is exact: an absolute value is a natural number of *units*, a unit being the
smallest positive number of the format, and reading a decimal rounds one quotient.

Main statement: rounding the units of a finite magnitude gives that magnitude back.
-/

namespace FormPatch.Number

/-- The two field widths of a binary interchange format. -/
structure Layout where
  /-- Stored bits of the significand. -/
  fractionBits : Nat
  /-- Bits of the exponent field. -/
  exponentBits : Nat
deriving DecidableEq, Repr

namespace Layout

/-- The 64-bit format. -/
def double : Layout := ⟨52, 11⟩

/-- The 32-bit format. -/
def single : Layout := ⟨23, 8⟩

/-- The unit is two to the power of minus this number. -/
def unitPlaces (layout : Layout) : Nat :=
  2 ^ (layout.exponentBits - 1) - 2 + layout.fractionBits

/-- The magnitude of infinity; greater ones belong to values that are no numbers. -/
def infinity (layout : Layout) : Nat :=
  (2 ^ layout.exponentBits - 1) * 2 ^ layout.fractionBits

/-- One past the greatest magnitude; the sign has this weight in a bit pattern. -/
def signWeight (layout : Layout) : Nat :=
  2 ^ layout.exponentBits * 2 ^ layout.fractionBits

/-- The pattern for infinity leaves room for the sign. -/
theorem infinity_lt_signWeight (layout : Layout) : layout.infinity < layout.signWeight := by
  have exponents : 2 ^ layout.exponentBits - 1 < 2 ^ layout.exponentBits :=
    Nat.sub_lt (Nat.two_pow_pos _) Nat.one_pos
  exact Nat.mul_lt_mul_of_pos_right exponents (Nat.two_pow_pos _)

/-- The units between a magnitude and the next one are two to this power. -/
def spacing (layout : Layout) (magnitude : Nat) : Nat :=
  magnitude / 2 ^ layout.fractionBits - 1

/-- The absolute value of a finite magnitude, in units. -/
def units (layout : Layout) (magnitude : Nat) : Nat :=
  (magnitude - layout.spacing magnitude * 2 ^ layout.fractionBits) *
    2 ^ layout.spacing magnitude

/-- The magnitude nearest to `numerator / denominator` units; halves go to the even neighbour,
and what rounds past the finite magnitudes is infinity. -/
def nearest (layout : Layout) (numerator denominator : Nat) : Nat :=
  let spacing := (numerator / denominator).log2 - layout.fractionBits
  min layout.infinity
    (spacing * 2 ^ layout.fractionBits + roundHalfEven numerator (denominator * 2 ^ spacing))

/-- A rounded magnitude leaves room for the sign. -/
theorem nearest_lt_signWeight (layout : Layout) (numerator denominator : Nat) :
    layout.nearest numerator denominator < layout.signWeight :=
  Nat.lt_of_le_of_lt (Nat.min_le_left _ _) layout.infinity_lt_signWeight

/-- The units of a decimal are a quotient. -/
def nearestDecimal (layout : Layout) (decimal : Decimal) : Nat :=
  layout.nearest (decimal.coefficient * 2 ^ layout.unitPlaces) (10 ^ decimal.places)

/-- The spacing of a magnitude is read off its units. -/
theorem log2_units (layout : Layout) (magnitude : Nat) :
    (layout.units magnitude).log2 - layout.fractionBits = layout.spacing magnitude := by
  have positive : 0 < 2 ^ layout.fractionBits := Nat.two_pow_pos _
  have parts := Nat.div_add_mod magnitude (2 ^ layout.fractionBits)
  have small := Nat.mod_lt magnitude positive
  unfold units spacing
  generalize magnitude / 2 ^ layout.fractionBits = field at parts ⊢
  generalize magnitude % 2 ^ layout.fractionBits = stored at parts small
  match field with
  | 0 =>
    have bound : magnitude < 2 ^ layout.fractionBits := by omega
    have logarithm : magnitude.log2 ≤ layout.fractionBits := by
      by_cases zero : magnitude = 0
      · simp [zero]
      · exact Nat.le_of_lt ((Nat.log2_lt zero).2 bound)
    simp
    omega
  | spacing + 1 =>
    have significand : magnitude - spacing * 2 ^ layout.fractionBits =
        2 ^ layout.fractionBits + stored := by
      rw [← parts, Nat.mul_add, Nat.mul_one, Nat.mul_comm spacing]
      omega
    have exponent : ((2 ^ layout.fractionBits + stored) * 2 ^ spacing).log2 =
        layout.fractionBits + spacing := by
      have nonzero : (2 ^ layout.fractionBits + stored) * 2 ^ spacing ≠ 0 :=
        Nat.ne_of_gt (Nat.mul_pos (by omega) (Nat.two_pow_pos _))
      refine (Nat.log2_eq_iff nonzero).2 ⟨?_, ?_⟩
      · rw [Nat.pow_add]
        exact Nat.mul_le_mul_right _ (Nat.le_add_right _ _)
      · rw [show layout.fractionBits + spacing + 1 = (layout.fractionBits + 1) + spacing by omega,
          Nat.pow_add, Nat.pow_succ]
        exact Nat.mul_lt_mul_of_pos_right (by omega) (Nat.two_pow_pos _)
    simp only [Nat.add_sub_cancel, significand, exponent]
    omega

/-- A finite magnitude is the one nearest to its own units. -/
theorem nearest_units (layout : Layout) (magnitude : Nat)
    (finite : magnitude < layout.infinity) (factor : Nat) (positive : 0 < factor) :
    layout.nearest (layout.units magnitude * factor) factor = magnitude := by
  unfold nearest
  simp only [Nat.mul_div_cancel _ positive, log2_units]
  have rounded : roundHalfEven (layout.units magnitude * factor)
      (factor * 2 ^ layout.spacing magnitude) =
        magnitude - layout.spacing magnitude * 2 ^ layout.fractionBits := by
    rw [units, Nat.mul_assoc, Nat.mul_comm (2 ^ _) factor]
    exact roundHalfEven_mul _ _ (Nat.mul_pos positive (Nat.two_pow_pos _))
  have below : layout.spacing magnitude * 2 ^ layout.fractionBits ≤ magnitude :=
    Nat.le_trans (Nat.mul_le_mul_right _ (Nat.sub_le _ 1)) (Nat.div_mul_le_self _ _)
  rw [rounded, Nat.add_sub_cancel' below]
  omega

end Layout

/-- A number of a binary format, infinities and values that are no numbers included. -/
structure Binary (layout : Layout) where
  /-- The sign bit; zero has both signs. -/
  negative : Bool
  /-- The bit pattern without its sign. -/
  magnitude : Nat
  /-- The pattern has the width of the format. -/
  bounded : magnitude < layout.signWeight
deriving DecidableEq, Repr

/-- A number of the 64-bit format. -/
abbrev Double := Binary .double

/-- A number of the 32-bit format. -/
abbrev Single := Binary .single

namespace Binary

variable {layout : Layout}

/-- The number with a bit pattern; bits above the format's width are dropped. -/
def ofBits (layout : Layout) (bits : Nat) : Binary layout :=
  ⟨bits / layout.signWeight % 2 = 1, bits % layout.signWeight,
    Nat.mod_lt _ (Nat.mul_pos (Nat.two_pow_pos _) (Nat.two_pow_pos _))⟩

/-- The bit pattern. -/
def toBits (number : Binary layout) : Nat :=
  (if number.negative then layout.signWeight else 0) + number.magnitude

/-- A number is the one that its bit pattern stands for. -/
theorem ofBits_toBits (number : Binary layout) : ofBits layout number.toBits = number := by
  obtain ⟨negative, magnitude, bounded⟩ := number
  have positive : 0 < layout.signWeight := Nat.lt_of_le_of_lt (Nat.zero_le _) bounded
  have none : magnitude / layout.signWeight = 0 := Nat.div_eq_of_lt bounded
  have kept : magnitude % layout.signWeight = magnitude := Nat.mod_eq_of_lt bounded
  cases negative with
  | false => simp [ofBits, toBits, none, kept]
  | true => simp [ofBits, toBits, Nat.add_div_left _ positive, none, kept]

/-- A bit pattern has one bit for the sign. -/
theorem toBits_lt (number : Binary layout) : number.toBits < 2 * layout.signWeight := by
  have bounded := number.bounded
  unfold toBits
  split <;> omega

instance : Inhabited (Binary layout) := ⟨ofBits layout 0⟩

/-- Whether the pattern stands for no number. -/
def isNaN (number : Binary layout) : Bool :=
  layout.infinity < number.magnitude

/-- Whether the pattern stands for a real number. -/
def isFinite (number : Binary layout) : Bool :=
  number.magnitude < layout.infinity

/-- The number nearest to a quotient of units. -/
def ofUnits (layout : Layout) (negative : Bool) (numerator denominator : Nat) : Binary layout :=
  ⟨negative, layout.nearest numerator denominator, layout.nearest_lt_signWeight _ _⟩

/-- The number nearest to a signed decimal. -/
def ofDecimal (layout : Layout) (negative : Bool) (decimal : Decimal) : Binary layout :=
  ofUnits layout negative (decimal.coefficient * 2 ^ layout.unitPlaces) (10 ^ decimal.places)

/-- The number nearest to an integer. -/
def ofInt (layout : Layout) (integer : Int) : Binary layout :=
  ofUnits layout (integer < 0) (integer.natAbs * 2 ^ layout.unitPlaces) 1

/-- The nearest number of another format. Infinities stay, and of a value that is no number the
sign and the leading stored bits stay while the first stored bit is set. -/
def convert (target : Layout) (number : Binary layout) : Binary target :=
  if number.isNaN then
    let stored := number.magnitude % 2 ^ layout.fractionBits
    let kept := stored * 2 ^ target.fractionBits / 2 ^ layout.fractionBits
    let quiet := 2 ^ (target.fractionBits - 1)
    let pattern := target.infinity + (if kept / quiet % 2 = 1 then kept else kept + quiet)
    ⟨number.negative, pattern % target.signWeight,
      Nat.mod_lt _ (Nat.mul_pos (Nat.two_pow_pos _) (Nat.two_pow_pos _))⟩
  else if number.isFinite then
    ofUnits target number.negative
      (layout.units number.magnitude * 2 ^ target.unitPlaces) (2 ^ layout.unitPlaces)
  else ⟨number.negative, target.infinity, target.infinity_lt_signWeight⟩

/-- Numbers compare by value: zeros of both signs are equal, and a value that is no number equals
nothing, itself included. -/
def equals (left right : Binary layout) : Bool :=
  !left.isNaN && !right.isNaN && left.magnitude == right.magnitude &&
    (left.negative == right.negative || left.magnitude == 0)

/-- Whether the value lies between zero and a bound, both included. -/
def isWithin (number : Binary layout) (bound : Nat) : Bool :=
  !number.isNaN && (!number.negative || number.magnitude == 0) &&
    number.magnitude ≤ (ofInt layout bound).magnitude

end Binary

end FormPatch.Number
