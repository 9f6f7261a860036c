import FormPatch.Text.Fold
import Mathlib.Data.List.Forall2

/-!
# Letter case, character by character

Texts agree exactly when each character of one matches the character of the other one: it is the
same, or one is an ASCII capital and the other one its small letter.
-/

namespace FormPatch

namespace Text

/-- Whether two characters are the same, or one is an ASCII capital and the other one its small
letter. -/
def Matches (left right : Char) : Prop :=
  left = right ∨ (left.isUpper = true ∧ right.toNat = left.toNat + 32) ∨
    (right.isUpper = true ∧ left.toNat = right.toNat + 32)

/-- A character is an upper-case letter when it lies between the first one and the last one. -/
theorem isUpper_iff {character : Char} :
    character.isUpper = true ↔ character.val ≥ 'A'.val ∧ character.val ≤ 'Z'.val :=
  decide_eq_true_iff

/-- Upper-case letters have the numbers from 65 to 90. -/
theorem isUpper_iff_toNat {character : Char} :
    character.isUpper = true ↔ 65 ≤ character.toNat ∧ character.toNat ≤ 90 := by
  rw [isUpper_iff, ge_iff_le, UInt32.le_iff_toNat_le, UInt32.le_iff_toNat_le]
  rfl

/-- Capitals are made small, and no other character is changed. -/
theorem toNat_toLower (character : Char) :
    character.toLower.toNat =
      if character.isUpper = true then character.toNat + 32 else character.toNat := by
  delta Char.toLower
  by_cases upper : character.isUpper = true
  · have range := isUpper_iff_toNat.1 upper
    rw [if_pos upper, dif_pos (isUpper_iff.1 upper)]
    -- Far below the largest code, adding does not wrap around.
    change (character.val + 32).toNat = character.toNat + 32
    rw [UInt32.toNat_add]
    change (character.toNat + 32) % 2 ^ 32 = character.toNat + 32
    omega
  · rw [if_neg upper, dif_neg (mt isUpper_iff.2 upper)]

/-- Characters have the same small letter exactly when they match. -/
theorem toLower_eq_iff {left right : Char} : left.toLower = right.toLower ↔ Matches left right := by
  rw [← Char.toNat_inj, toNat_toLower, toNat_toLower, Matches, ← Char.toNat_inj]
  simp only [isUpper_iff_toNat]
  split <;> split <;> omega

/-- Texts agree exactly when they match character by character. -/
theorem agree_iff_matches {left right : String} :
    agree left right = true ↔ List.Forall₂ Matches left.toList right.toList := by
  have folded : fold left = fold right ↔
      left.toList.map Char.toLower = right.toList.map Char.toLower := by
    simp [fold, String.ofList_inj]
  rw [agree_iff, folded, ← List.forall₂_eq_eq_eq, List.forall₂_map_left_iff,
    List.forall₂_map_right_iff]
  simp only [toLower_eq_iff]

end Text

end FormPatch
