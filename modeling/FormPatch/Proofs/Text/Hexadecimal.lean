import FormPatch.Proofs.Text.Digits
import Mathlib.Data.Nat.Digits.Lemmas

/-!
# Hexadecimal numbers

A run of hexadecimal digits of either case denotes the positional value of its digits, however many
zeros stand in front. Main statement: a text is taken as a hexadecimal run exactly when some number
is denoted, and then the value computed is that number.
-/

namespace FormPatch

namespace Text

/-- Whether a character is a hexadecimal digit, small or capital, of some value. -/
def IsDigitOf (character : Char) (value : Nat) : Prop :=
  "0123456789abcdef".toList[value]? = some character ∨
    "0123456789ABCDEF".toList[value]? = some character

instance (character : Char) (value : Nat) : Decidable (IsDigitOf character value) :=
  inferInstanceAs (Decidable (_ ∨ _))

/-- Whether digits, at least one, denote a number in base sixteen. -/
def Denotes (digits : List Char) (number : Nat) : Prop :=
  digits ≠ [] ∧ ∃ values, List.Forall₂ IsDigitOf digits values ∧
    Nat.ofDigits 16 values.reverse = number

/-- Characters of each value are given it. -/
theorem digitValue?_of_isDigitOf {character : Char} {value : Nat}
    (digit : IsDigitOf character value) : digitValue? character = some value := by
  have small : value < 16 := by
    rcases digit with listed | listed
    · exact (List.getElem?_eq_some_iff.1 listed).1
    · exact (List.getElem?_eq_some_iff.1 listed).1
  have each : ∀ value < 16,
      ("0123456789abcdef".toList[value]?.bind digitValue?) = some value ∧
        ("0123456789ABCDEF".toList[value]?.bind digitValue?) = some value := by
    decide
  obtain ⟨lower, upper⟩ := each value small
  rcases digit with listed | listed
  · rwa [listed, Option.bind_some] at lower
  · rwa [listed, Option.bind_some] at upper

/-- A character has a value exactly when it is a digit of that value. -/
theorem digitValue?_eq_some {character : Char} {value : Nat} :
    digitValue? character = some value ↔ IsDigitOf character value := by
  refine ⟨fun found => ?_, digitValue?_of_isDigitOf⟩
  -- Digits are early characters, and each of these can be looked at.
  have early : ∀ code < 103, ∀ value ∈ digitValue? (Char.ofNat code),
      IsDigitOf (Char.ofNat code) value := by
    decide
  have digit : isHexDigit character = true := by
    rw [isHexDigit, found]
    rfl
  have range := toNat_of_isHexDigit digit
  have listed := early character.toNat (by omega) value
  rw [Char.ofNat_toNat] at listed
  exact listed found

/-- Digits are read on from the value of those in front. -/
theorem foldl_of_forall₂ {digits : List Char} {values : List Nat}
    (each : List.Forall₂ IsDigitOf digits values) (start : Nat) :
    digits.foldl (fun value digit => value * 16 + (digitValue? digit).getD 0) start =
      Nat.ofDigits 16 values.reverse + 16 ^ digits.length * start := by
  induction each generalizing start with
  | nil => simp
  | @cons digit value digits values first others ih =>
    have placed : values.reverse.length = digits.length := by
      rw [List.length_reverse, others.length_eq]
    rw [List.foldl_cons, ih, digitValue?_of_isDigitOf first, Option.getD_some, List.reverse_cons,
      Nat.ofDigits_append, placed, List.length_cons, Nat.ofDigits_singleton]
    ring

/-- A run of digits denotes a number exactly when it is the value of the run. -/
theorem denotes_iff {digits : List Char} {number : Nat} :
    Denotes digits number ↔ isHexRun digits = true ∧ valueOf 16 digits = number := by
  have value {values : List Nat} (each : List.Forall₂ IsDigitOf digits values) :
      valueOf 16 digits = Nat.ofDigits 16 values.reverse := by
    rw [valueOf, foldl_of_forall₂ each, Nat.mul_zero, Nat.add_zero]
  constructor
  · rintro ⟨nonempty, values, each, rfl⟩
    refine ⟨?_, value each⟩
    simp only [isHexRun, Bool.and_eq_true, Bool.not_eq_true', List.isEmpty_eq_false_iff,
      List.all_eq_true]
    have hexadecimal : List.Forall₂
        (fun digit value => isHexDigit digit = true ∧ IsDigitOf digit value) digits values := by
      refine each.imp fun digit value found => ⟨?_, found⟩
      rw [isHexDigit, digitValue?_of_isDigitOf found, Option.isSome_some]
    exact ⟨nonempty, ((List.forall₂_and_left _ _).1 hexadecimal).1⟩
  · rintro ⟨run, rfl⟩
    simp only [isHexRun, Bool.and_eq_true, Bool.not_eq_true', List.isEmpty_eq_false_iff,
      List.all_eq_true] at run
    have each : List.Forall₂ IsDigitOf digits
        (digits.map fun digit => (digitValue? digit).getD 0) := by
      refine List.forall₂_map_right_iff.2 (List.forall₂_same.2 fun digit member => ?_)
      obtain ⟨value, found⟩ := Option.isSome_iff_exists.1 (run.2 digit member)
      rw [found, Option.getD_some]
      exact digitValue?_eq_some.1 found
    exact ⟨run.1, _, each, (value each).symm⟩

end Text

end FormPatch
