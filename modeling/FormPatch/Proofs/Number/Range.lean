import Mathlib.Algebra.Order.Ring.Rat
import Mathlib.Algebra.Order.Field.Basic
import Mathlib.Order.Monotone.Basic
import FormPatch.Number.Binary

/-!
# Numbers in a range

A finite number stands for a fraction: a whole number of units, with its sign. Magnitudes are
ordered as the absolute values that they stand for. Main statement: a number is within a bound that
its format holds exactly when it is finite and its value lies between zero and the bound.
-/

namespace FormPatch.Number

namespace Layout

variable (layout : Layout)

/-- From a magnitude to the next one it is one spacing. -/
theorem units_succ (magnitude : Nat) :
    layout.units (magnitude + 1) = layout.units magnitude + 2 ^ layout.spacing magnitude := by
  unfold units spacing
  have positive : 0 < 2 ^ layout.fractionBits := Nat.two_pow_pos _
  generalize 2 ^ layout.fractionBits = width at positive ⊢
  have parts := Nat.div_add_mod magnitude width
  have small := Nat.mod_lt magnitude positive
  generalize magnitude % width = stored at parts small
  generalize magnitude / width = field at parts ⊢
  by_cases full : stored + 1 = width
  · -- The stored bits are full, so the next magnitude has the next exponent.
    have next : magnitude + 1 = width * (field + 1) := by
      rw [← parts, Nat.mul_succ, ← full, Nat.add_assoc]
    rw [next, Nat.mul_div_cancel_left _ positive, Nat.add_sub_cancel]
    cases field with
    | zero => simp_all
    | succ spacing =>
      have here : magnitude - spacing * width = width + stored := by
        rw [← parts, Nat.mul_succ, Nat.mul_comm]
        omega
      have there : width * (spacing + 1 + 1) - (spacing + 1) * width = width := by
        rw [Nat.mul_succ, Nat.mul_comm (spacing + 1), Nat.add_sub_cancel_left]
      have double : width + stored + 1 = width * 2 := by omega
      rw [there, Nat.add_sub_cancel, here, Nat.pow_succ, ← Nat.succ_mul, Nat.succ_eq_add_one,
        double, Nat.mul_assoc, Nat.mul_comm 2]
  · have same : (magnitude + 1) / width = field := by
      rw [← parts, Nat.add_assoc, Nat.mul_add_div positive, Nat.div_eq_of_lt (by omega),
        Nat.add_zero]
    have below : (field - 1) * width ≤ magnitude := by
      rw [← parts, Nat.mul_comm]
      exact Nat.le_trans (Nat.mul_le_mul_left _ (Nat.sub_le _ 1)) (Nat.le_add_right _ _)
    rw [same, Nat.sub_add_comm below, Nat.succ_mul]

/-- Magnitudes are ordered as their absolute values. -/
theorem strictMono_units : StrictMono layout.units :=
  strictMono_nat_of_lt_succ fun magnitude => by
    rw [units_succ]
    exact Nat.lt_add_of_pos_right (Nat.two_pow_pos _)

/-- The magnitude zero stands for zero. -/
theorem units_zero : layout.units 0 = 0 := by
  simp [units]

/-- A format holds an integer when the nearest number is finite and stands for it. -/
def Holds (integer : Nat) : Prop :=
  (Binary.ofInt layout integer).isFinite = true ∧
    layout.units (Binary.ofInt layout integer).magnitude = integer * 2 ^ layout.unitPlaces

instance (integer : Nat) : Decidable (layout.Holds integer) :=
  inferInstanceAs (Decidable (_ ∧ _))

end Layout

namespace Binary

variable {layout : Layout}

/-- The fraction that a finite number stands for. -/
def value (number : Binary layout) : ℚ :=
  let absolute : ℚ := layout.units number.magnitude / (2 ^ layout.unitPlaces : Nat)
  if number.negative then -absolute else absolute

/-- The fraction is negative when the number has the sign and is not zero. -/
theorem value_nonneg_iff (number : Binary layout) :
    0 ≤ number.value ↔ number.negative = false ∨ number.magnitude = 0 := by
  have scale : (0 : ℚ) < (2 ^ layout.unitPlaces : Nat) := Nat.cast_pos.2 (Nat.two_pow_pos _)
  have zero : layout.units number.magnitude = 0 ↔ number.magnitude = 0 := by
    conv_lhs => rw [← layout.units_zero]
    exact layout.strictMono_units.injective.eq_iff
  unfold value
  cases number.negative with
  | false => simp [div_nonneg, Nat.cast_nonneg]
  | true =>
    simp only [↓reduceIte, Left.nonneg_neg_iff, div_le_iff₀ scale, zero_mul, Nat.cast_nonpos, zero,
      Bool.true_eq_false, false_or]

/-- A fraction without the sign is at most a held integer when the magnitudes say so. -/
theorem value_le_iff {bound : Nat} (held : layout.Holds bound) {number : Binary layout}
    (positive : 0 ≤ number.value) :
    number.value ≤ bound ↔ number.magnitude ≤ (ofInt layout bound).magnitude := by
  have scale : (0 : ℚ) < (2 ^ layout.unitPlaces : Nat) := Nat.cast_pos.2 (Nat.two_pow_pos _)
  have absolute : number.value =
      layout.units number.magnitude / (2 ^ layout.unitPlaces : Nat) := by
    unfold value
    rcases number.value_nonneg_iff.1 positive with unsigned | zero
    · simp [unsigned]
    · simp [zero, layout.units_zero]
  rw [absolute, div_le_iff₀ scale, ← Nat.cast_mul, Nat.cast_le, ← held.2,
    layout.strictMono_units.le_iff_le]

/-- A number is within a held bound when it is finite and its fraction is. -/
theorem isWithin_iff {bound : Nat} (held : layout.Holds bound) (number : Binary layout) :
    number.isWithin bound = true ↔
      number.isFinite = true ∧ 0 ≤ number.value ∧ number.value ≤ bound := by
  have reached := of_decide_eq_true held.1
  simp only [isWithin, Bool.and_eq_true, Bool.not_eq_true', Bool.or_eq_true, beq_iff_eq,
    decide_eq_true_eq, ← value_nonneg_iff, isNaN, decide_eq_false_iff_not, isFinite]
  constructor
  · rintro ⟨⟨_, positive⟩, below⟩
    exact ⟨by omega, positive, (value_le_iff held positive).2 below⟩
  · rintro ⟨finite, positive, most⟩
    exact ⟨⟨by omega, positive⟩, (value_le_iff held positive).1 most⟩

end Binary

/-- The 64-bit format holds a hundred thousand. -/
theorem Layout.double_holds : Layout.double.Holds 100000 := by
  decide +kernel

end FormPatch.Number
