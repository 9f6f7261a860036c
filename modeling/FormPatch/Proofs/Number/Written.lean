import FormPatch.Number.Shortest
import FormPatch.Proofs.Text.Digits

/-!
# Numbers and their written forms

A decimal is the one that its digits before and after the point are read as, so a finite number is
read back from its written form.
-/

namespace FormPatch.Number

/-- Digits behind their sign. -/
def signedDigits (negative : Bool) (digits : List Char) : String :=
  String.ofList ((if negative then ['-'] else []) ++ digits)

/-- Digits behind their sign, and a point and a fraction if there is one. -/
def writtenDigits (negative : Bool) (whole fraction : List Char) : String :=
  signedDigits negative whole ++ if fraction = [] then "" else "." ++ String.ofList fraction

/-- A sign and the digits behind it are one word. -/
theorem isWord_signedDigits (negative : Bool) {digits : List Char}
    (run : Text.isDecimal digits = true) : isWord (signedDigits negative digits) = true := by
  have hexadecimal := Text.isHexRun_of_isDecimal run
  unfold signedDigits
  split
  · exact Text.isWord_of_minus hexadecimal
  · exact Text.isWord_of_isHexRun hexadecimal

namespace Decimal

/-- The whole part and the fraction of a decimal are its digits. -/
theorem digits_eq (decimal : Decimal) : decimal.whole ++ decimal.fraction = decimal.digits :=
  List.take_append_drop _ _

/-- At least one digit stands before the point. -/
theorem places_lt_length (decimal : Decimal) : decimal.places < decimal.digits.length := by
  simp only [digits, List.length_append, List.length_replicate]
  omega

/-- The fraction of a decimal has as many digits as the decimal has places. -/
theorem length_fraction (decimal : Decimal) : decimal.fraction.length = decimal.places := by
  have more := decimal.places_lt_length
  rw [fraction, List.length_drop]
  omega

/-- The digits of a decimal are decimal digits. -/
theorem isDigit_of_mem_digits {decimal : Decimal} {digit : Char} (member : digit ∈ decimal.digits) :
    digit.isDigit = true := by
  rw [digits, List.mem_append] at member
  rcases member with member | member
  · rw [(List.mem_replicate.1 member).2]
    decide
  · exact Nat.isDigit_of_mem_toDigits (by decide) (by decide) member

/-- The digits before the point are a run. -/
theorem isDecimal_whole (decimal : Decimal) : Text.isDecimal decimal.whole = true := by
  have more := decimal.places_lt_length
  simp only [Text.isDecimal, Bool.and_eq_true, Bool.not_eq_true', List.isEmpty_eq_false_iff,
    List.all_eq_true]
  refine ⟨?_, fun digit member => isDigit_of_mem_digits (List.mem_of_mem_take member)⟩
  apply List.ne_nil_of_length_pos
  rw [whole, List.length_take]
  omega

/-- A decimal is the one that its digits are read as. -/
theorem ofDigits_whole_fraction (decimal : Decimal) :
    ofDigits decimal.whole decimal.fraction = decimal := by
  rw [ofDigits, digits_eq, length_fraction, digits, Text.valueOf_zeros, Text.valueOf_toDigits]

/-- The digits after the point are a run where there are any. -/
theorem isDecimal_fraction (decimal : Decimal) (pointed : decimal.fraction ≠ []) :
    Text.isDecimal decimal.fraction = true := by
  simp only [Text.isDecimal, Bool.and_eq_true, Bool.not_eq_true', List.isEmpty_eq_false_iff,
    List.all_eq_true]
  exact ⟨pointed, fun digit member => isDigit_of_mem_digits (List.mem_of_mem_drop member)⟩

end Decimal

namespace Binary

variable {layout : Layout}

/-- The decimal that stands for a finite number. -/
def decimal (number : Binary layout) : Decimal := layout.shortest number.magnitude

/-- A finite number is the one nearest to its decimal. -/
theorem ofDecimal_decimal {number : Binary layout} (finite : number.isFinite = true) :
    ofDecimal layout number.negative number.decimal = number := by
  have nearest : layout.nearestDecimal number.decimal = number.magnitude :=
    layout.nearestDecimal_shortest number.magnitude (of_decide_eq_true finite)
  obtain ⟨negative, magnitude, bounded⟩ := number
  unfold ofDecimal ofUnits
  congr 1

/-- A finite number is written as its sign and the digits of its decimal. -/
theorem text_of_isFinite {number : Binary layout} (finite : number.isFinite = true) :
    number.text = writtenDigits number.negative number.decimal.whole number.decimal.fraction := by
  have real : number.isNaN = false := by
    have below := of_decide_eq_true finite
    simp only [isNaN, decide_eq_false_iff_not]
    omega
  have pointless : number.decimal.fraction = [] ↔ number.decimal.places = 0 := by
    rw [← List.length_eq_zero_iff, Decimal.length_fraction]
  apply String.toList_inj.1
  simp only [text, real, Bool.false_eq_true, ↓reduceIte, finite, Decimal.text, writtenDigits,
    signedDigits, pointless]
  rw [← decimal]
  by_cases whole : number.decimal.places = 0
  · simp [whole]
  · simp [whole]

end Binary

end FormPatch.Number
