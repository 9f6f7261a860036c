import Mathlib.Tactic.Ring
import FormPatch.Number.Binary

/-!
# Numbers past the finite ones

What a quotient rounds to is finite up to half a spacing past the greatest finite magnitude, and
infinity from there on. Main statement: the number nearest to a decimal is finite exactly when the
decimal lies below that bound.

The proof is by the spacing that the rounding takes from the quotient. Below the widest spacing
nothing rounds far enough, above it everything does, and at the widest spacing the bound is where
the rounded quotient turns: half way to an even number, which goes up.
-/

namespace FormPatch.Number

section Rounding

variable {numerator denominator bound : Nat}

/-- What lies below a number rounds to it at most. -/
theorem roundHalfEven_le (below : numerator < bound * denominator) :
    roundHalfEven numerator denominator ≤ bound := by
  have positive : 0 < denominator := Nat.pos_of_mul_pos_left (Nat.zero_lt_of_lt below)
  have whole : numerator / denominator < bound := (Nat.div_lt_iff_lt_mul positive).2 below
  have parity : numerator / denominator % 2 < 2 := Nat.mod_lt _ (by decide)
  simp only [roundHalfEven]
  split
  · omega
  · split <;> omega

/-- What reaches a number rounds to it at least. -/
theorem le_roundHalfEven (positive : 0 < denominator) (reaches : bound * denominator ≤ numerator) :
    bound ≤ roundHalfEven numerator denominator := by
  have whole : bound ≤ numerator / denominator := (Nat.le_div_iff_mul_le positive).2 reaches
  simp only [roundHalfEven]
  split
  · omega
  · split <;> omega

/-- A quotient rounds to less than an even number up to half way before it. -/
theorem roundHalfEven_lt_even (positive : 0 < denominator) (even : bound % 2 = 0) :
    roundHalfEven numerator denominator < bound ↔
      2 * numerator + denominator < 2 * (denominator * bound) := by
  have parts : denominator * (numerator / denominator) + numerator % denominator = numerator :=
    Nat.div_add_mod numerator denominator
  have small : numerator % denominator < denominator := Nat.mod_lt _ positive
  simp only [roundHalfEven]
  generalize numerator / denominator = whole at parts ⊢
  generalize numerator % denominator = rest at parts small ⊢
  -- Only one below the bound does the rest decide, and there the odd neighbour gives way.
  rcases Nat.lt_trichotomy (whole + 1) bound with far | next | past
  · have room : denominator * (whole + 2) ≤ denominator * bound := Nat.mul_le_mul_left _ far
    rw [Nat.mul_add] at room
    have rounds : (if 2 * rest < denominator then whole
        else if denominator < 2 * rest then whole + 1 else whole + whole % 2) < bound := by
      split
      · omega
      · split <;> omega
    exact iff_of_true rounds (by omega)
  · have room : denominator * bound = denominator * whole + denominator := by
      rw [← next, Nat.mul_succ]
    split
    · omega
    · split <;> omega
  · have room : denominator * bound ≤ denominator * whole :=
      Nat.mul_le_mul_left _ (Nat.le_of_lt_succ past)
    have rounds : ¬ (if 2 * rest < denominator then whole
        else if denominator < 2 * rest then whole + 1 else whole + whole % 2) < bound := by
      split
      · omega
      · split <;> omega
    exact iff_of_false rounds (by omega)

end Rounding

namespace Layout

variable (layout : Layout)

/-- The spacing of the greatest finite magnitudes. -/
def widest : Nat := 2 ^ layout.exponentBits - 3

/-- The units from which on everything rounds to infinity, half a spacing past the greatest finite
magnitude. -/
def overflow : Nat := (2 ^ (layout.fractionBits + 2) - 1) * 2 ^ (layout.widest - 1)

variable {layout}

/-- Infinity follows the magnitudes of the widest spacing. -/
theorem infinity_eq (wide : 2 ≤ layout.exponentBits) :
    layout.infinity = (layout.widest + 2) * 2 ^ layout.fractionBits := by
  have exponents : 2 ^ 2 ≤ 2 ^ layout.exponentBits := Nat.pow_le_pow_right (by decide) wide
  have same : 2 ^ layout.exponentBits - 1 = layout.widest + 2 := by
    unfold widest
    omega
  rw [infinity, same]

/-- Twice the bound is half a spacing short of twice the next power of two. -/
theorem double_overflow (wide : 2 ≤ layout.exponentBits) :
    2 * layout.overflow + 2 ^ layout.widest =
      2 ^ (layout.fractionBits + 2) * 2 ^ layout.widest := by
  have exponents : 2 ^ 2 ≤ 2 ^ layout.exponentBits := Nat.pow_le_pow_right (by decide) wide
  have some : layout.widest = layout.widest - 1 + 1 := by
    unfold widest
    omega
  have halved : 2 ^ layout.widest = 2 * 2 ^ (layout.widest - 1) := by
    rw [some, Nat.pow_succ, Nat.mul_comm, Nat.add_sub_cancel]
  have positive : 1 ≤ 2 ^ (layout.fractionBits + 2) := Nat.two_pow_pos _
  rw [overflow, halved, Nat.sub_mul, Nat.one_mul, Nat.mul_left_comm _ 2]
  have enough := Nat.le_mul_of_pos_left (2 ^ (layout.widest - 1)) positive
  omega

/-- The bound lies between two powers of two. -/
theorem overflow_range (wide : 2 ≤ layout.exponentBits) :
    2 ^ (layout.fractionBits + layout.widest) ≤ layout.overflow ∧
      layout.overflow ≤ 2 ^ (layout.fractionBits + layout.widest + 1) := by
  have doubled := double_overflow wide
  have split : 2 ^ (layout.fractionBits + 2) * 2 ^ layout.widest =
      4 * 2 ^ (layout.fractionBits + layout.widest) := by ring
  have less : 2 ^ layout.widest ≤ 2 ^ (layout.fractionBits + layout.widest) :=
    Nat.pow_le_pow_right (by decide) (Nat.le_add_left _ _)
  have spaced : 0 < 2 ^ layout.widest := Nat.two_pow_pos _
  rw [split] at doubled
  rw [Nat.pow_succ]
  omega

section Bound

variable {numerator denominator spacing : Nat}

/-- What lies below the power of two past a narrower spacing lies below the bound. -/
theorem lt_overflow_of_narrow (wide : 2 ≤ layout.exponentBits) (narrow : spacing < layout.widest)
    (below : numerator < 2 ^ (layout.fractionBits + 1) * (denominator * 2 ^ spacing)) :
    numerator < layout.overflow * denominator := by
  obtain ⟨least, -⟩ := overflow_range wide
  calc
    numerator < 2 ^ (layout.fractionBits + 1) * (denominator * 2 ^ spacing) := below
    _ = 2 ^ (layout.fractionBits + (spacing + 1)) * denominator := by ring
    _ ≤ 2 ^ (layout.fractionBits + layout.widest) * denominator :=
      Nat.mul_le_mul_right _ (Nat.pow_le_pow_right (by decide) (by omega))
    _ ≤ layout.overflow * denominator := Nat.mul_le_mul_right _ least

/-- What reaches the power of two of a wider spacing reaches the bound. -/
theorem overflow_le_of_past (wide : 2 ≤ layout.exponentBits) (past : layout.widest < spacing)
    (reached : 2 ^ layout.fractionBits * (denominator * 2 ^ spacing) ≤ numerator) :
    layout.overflow * denominator ≤ numerator := by
  obtain ⟨-, most⟩ := overflow_range wide
  calc
    layout.overflow * denominator ≤ 2 ^ (layout.fractionBits + layout.widest + 1) * denominator :=
      Nat.mul_le_mul_right _ most
    _ ≤ 2 ^ (layout.fractionBits + spacing) * denominator :=
      Nat.mul_le_mul_right _ (Nat.pow_le_pow_right (by decide) (by omega))
    _ = 2 ^ layout.fractionBits * (denominator * 2 ^ spacing) := by ring
    _ ≤ numerator := reached

/-- In units of a denominator, twice the bound is as far from twice the next power of two. -/
theorem double_overflow_mul (wide : 2 ≤ layout.exponentBits) (denominator : Nat) :
    2 * (layout.overflow * denominator) + denominator * 2 ^ layout.widest =
      2 * (denominator * 2 ^ layout.widest * 2 ^ (layout.fractionBits + 1)) := by
  calc
    2 * (layout.overflow * denominator) + denominator * 2 ^ layout.widest =
        (2 * layout.overflow + 2 ^ layout.widest) * denominator := by ring
    _ = 2 ^ (layout.fractionBits + 2) * 2 ^ layout.widest * denominator := by
      rw [double_overflow wide]
    _ = 2 * (denominator * 2 ^ layout.widest * 2 ^ (layout.fractionBits + 1)) := by ring

end Bound

section Spacing

variable {numerator denominator spacing : Nat}
  (taken : (numerator / denominator).log2 - layout.fractionBits = spacing)
  (positive : 0 < denominator)

include taken positive

/-- A quotient lies below the power of two past its spacing. -/
theorem lt_of_spacing : numerator < 2 ^ (layout.fractionBits + 1) * (denominator * 2 ^ spacing) := by
  have below : numerator / denominator < 2 ^ ((numerator / denominator).log2 + 1) :=
    Nat.lt_log2_self
  have most : 2 ^ ((numerator / denominator).log2 + 1) ≤ 2 ^ (layout.fractionBits + 1 + spacing) :=
    Nat.pow_le_pow_right (by decide) (by omega)
  have bounded := (Nat.div_lt_iff_lt_mul positive).1 (Nat.lt_of_lt_of_le below most)
  calc
    numerator < 2 ^ (layout.fractionBits + 1 + spacing) * denominator := bounded
    _ = 2 ^ (layout.fractionBits + 1) * (denominator * 2 ^ spacing) := by ring

/-- A quotient with a spacing past the smallest reaches the power of two of its spacing. -/
theorem le_of_spacing (some : 0 < spacing) :
    2 ^ layout.fractionBits * (denominator * 2 ^ spacing) ≤ numerator := by
  have nonzero : numerator / denominator ≠ 0 := by
    intro zero
    rw [zero, Nat.log2_zero] at taken
    omega
  have reached : 2 ^ (numerator / denominator).log2 ≤ numerator / denominator :=
    Nat.log2_self_le nonzero
  have exponent : (numerator / denominator).log2 = layout.fractionBits + spacing := by omega
  rw [exponent] at reached
  calc
    2 ^ layout.fractionBits * (denominator * 2 ^ spacing) =
        2 ^ (layout.fractionBits + spacing) * denominator := by ring
    _ ≤ numerator := (Nat.le_div_iff_mul_le positive).1 reached

end Spacing

/-- A quotient of units rounds to a finite magnitude exactly below the bound. -/
theorem nearest_lt_infinity_iff (wide : 2 ≤ layout.exponentBits) {numerator denominator : Nat}
    (positive : 0 < denominator) :
    layout.nearest numerator denominator < layout.infinity ↔
      numerator < layout.overflow * denominator := by
  have exponents : 2 ^ 2 ≤ 2 ^ layout.exponentBits := Nat.pow_le_pow_right (by decide) wide
  have some : 1 ≤ layout.widest := by
    unfold widest
    omega
  have width : 0 < 2 ^ layout.fractionBits := Nat.two_pow_pos _
  have double : 2 ^ (layout.fractionBits + 1) = 2 * 2 ^ layout.fractionBits := by ring
  unfold nearest
  generalize taken : (numerator / denominator).log2 - layout.fractionBits = spacing
  have below := lt_of_spacing taken positive
  have capped (magnitude : Nat) :
      min layout.infinity magnitude < layout.infinity ↔ magnitude < layout.infinity := by omega
  simp only [capped]
  rw [infinity_eq wide]
  rcases Nat.lt_trichotomy spacing layout.widest with narrow | same | past
  · have rounds := roundHalfEven_le below
    have room : (spacing + 1) * 2 ^ layout.fractionBits ≤ layout.widest * 2 ^ layout.fractionBits :=
      Nat.mul_le_mul_right _ narrow
    rw [Nat.add_mul] at room ⊢
    exact iff_of_true (by omega) (lt_overflow_of_narrow wide narrow below)
  · subst same
    have scaled : 0 < denominator * 2 ^ layout.widest := Nat.mul_pos positive (Nat.two_pow_pos _)
    have even : 2 ^ (layout.fractionBits + 1) % 2 = 0 := by omega
    have turns : roundHalfEven numerator (denominator * 2 ^ layout.widest) <
        2 ^ (layout.fractionBits + 1) ↔ _ := roundHalfEven_lt_even scaled even
    have bound := double_overflow_mul wide denominator
    rw [Nat.add_mul, Nat.add_lt_add_iff_left, ← double, turns]
    omega
  · have reached := le_of_spacing taken positive (Nat.lt_of_le_of_lt (Nat.zero_le _) past)
    have rounds := le_roundHalfEven (Nat.mul_pos positive (Nat.two_pow_pos spacing)) reached
    have room : (layout.widest + 1) * 2 ^ layout.fractionBits ≤ spacing * 2 ^ layout.fractionBits :=
      Nat.mul_le_mul_right _ past
    have reaches := overflow_le_of_past wide past reached
    rw [Nat.add_mul] at room ⊢
    exact iff_of_false (by omega) (by omega)

/-- The number from which on everything rounds to infinity. -/
def limit (layout : Layout) : Nat :=
  (2 ^ (layout.fractionBits + 2) - 1) * 2 ^ (layout.widest - 1 - layout.unitPlaces)

/-- The bound in units, where a unit is no more than half the widest spacing. -/
theorem overflow_eq (fine : layout.unitPlaces ≤ layout.widest - 1) :
    layout.overflow = layout.limit * 2 ^ layout.unitPlaces := by
  rw [overflow, limit, Nat.mul_assoc, ← Nat.pow_add, Nat.sub_add_cancel fine]

end Layout

/-- The 64-bit number nearest to a decimal is finite exactly when the decimal lies below half a
spacing past the greatest finite one. -/
theorem Binary.isFinite_ofDecimal (negative : Bool) (decimal : Decimal) :
    (ofDecimal .double negative decimal).isFinite = true ↔
      decimal.coefficient < Layout.double.limit * 10 ^ decimal.places := by
  have wide : 2 ≤ Layout.double.exponentBits := by decide
  have fine : Layout.double.unitPlaces ≤ Layout.double.widest - 1 := by decide
  have places : 0 < 10 ^ decimal.places := Nat.pow_pos (by decide)
  have unit : 0 < 2 ^ Layout.double.unitPlaces := Nat.two_pow_pos _
  have regroup : Layout.double.limit * 2 ^ Layout.double.unitPlaces * 10 ^ decimal.places =
      Layout.double.limit * 10 ^ decimal.places * 2 ^ Layout.double.unitPlaces :=
    Nat.mul_right_comm _ _ _
  rw [isFinite, decide_eq_true_eq, ofDecimal, ofUnits, Layout.nearest_lt_infinity_iff wide places,
    Layout.overflow_eq fine, regroup, Nat.mul_lt_mul_right unit]

end FormPatch.Number
