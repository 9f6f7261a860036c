import FormPatch.Proofs.Number.Overflow
import FormPatch.Proofs.Syntax.Spelling

/-!
# Numbers that are read

A number is read from its digits, however many there are, and kept as the nearest one of the 64-bit
format. Main statement: it is finite exactly when the written value lies below the bound of the
format, and then the text that is written for it is read as the same number again. A number past the
bound is kept as infinity, and the text that is written for it is not read at all.
-/

namespace FormPatch

open Syntax Syntax.Reader

namespace Number

/-- The text of infinity. -/
def infinityText (negative : Bool) : String := if negative then "-inf" else "inf"

/-- A decimal is nearest to no value that is not a number, so past the finite ones it is kept as
infinity. -/
theorem Binary.text_of_not_isFinite {negative : Bool} {decimal : Decimal}
    (past : (ofDecimal .double negative decimal).isFinite = false) :
    (ofDecimal .double negative decimal).text = infinityText negative := by
  have least : Layout.double.nearestDecimal decimal ≤ Layout.double.infinity := Nat.min_le_left _ _
  have real : (ofDecimal .double negative decimal).isNaN = false :=
    decide_eq_false (Nat.not_lt.2 least)
  rw [Binary.text, real, past]
  cases negative <;> rfl

end Number

namespace Syntax.Reader

/-- Digits are written as some text. -/
theorem signedDigits_ne_empty (negative : Bool) {whole : List Char}
    (run : Text.isDecimal whole = true) : Number.signedDigits negative whole ≠ "" := by
  intro none
  have empty := splitSign_signedDigits negative run
  rw [none] at empty
  cases empty
  cases run

/-- A number that is read starts with digits behind their sign, behind which a point and a fraction
may stand. -/
theorem number_eq_read {cursor after : Cursor} {value : Number.Double}
    (ran : number.run cursor = .read value after) :
    ∃ negative whole fraction, Text.isDecimal whole = true ∧
      value = .ofDecimal .double negative (.ofDigits whole fraction) ∧
      (cursor.words = Number.signedDigits negative whole :: after.words ∧ fraction = [] ∨
        cursor.words = Number.signedDigits negative whole :: "." :: String.ofList fraction ::
          after.words ∧ Text.isDecimal fraction = true) := by
  obtain ⟨word, behind, taken, rest⟩ := bind_eq_read.1 ran
  obtain ⟨rfl, rfl⟩ := next_eq_read.1 taken
  cases split : splitSign cursor.word.toList with
  | mk negative whole =>
    have spelled : Number.signedDigits negative whole = cursor.word := by
      have joined := signedDigits_splitSign cursor.word
      rwa [split] at joined
    simp only [split] at rest
    obtain ⟨_, _, digits, rest⟩ := bind_eq_read.1 rest
    obtain ⟨run, rfl⟩ := require_eq_read.1 digits
    have first := Cursor.words_of_word (signedDigits_ne_empty negative run) spelled.symm
    obtain ⟨pointed, place, accepted, rest⟩ := bind_eq_read.1 rest
    by_cases point : cursor.take.word = "."
    · rw [run_accept_of_word point, Outcome.read.injEq] at accepted
      obtain ⟨rfl, rfl⟩ := accepted
      obtain ⟨fraction, stop, taken, rest⟩ := bind_eq_read.1 rest
      obtain ⟨rfl, rfl⟩ := next_eq_read.1 taken
      obtain ⟨_, _, digits, rest⟩ := bind_eq_read.1 rest
      obtain ⟨behind, rfl⟩ := require_eq_read.1 digits
      obtain ⟨rfl, rfl⟩ := pure_eq_read.1 rest
      have some : cursor.take.take.word ≠ "" := by
        intro none
        rw [none] at behind
        cases behind
      have second := Cursor.words_of_word (by decide) point
      have third := Cursor.words_of_word some rfl
      refine ⟨negative, whole, cursor.take.take.word.toList, run, rfl, .inr ⟨?_, behind⟩⟩
      rw [first, second, third, String.ofList_toList]
    · rw [run_accept_of_ne point, Outcome.read.injEq] at accepted
      obtain ⟨rfl, rfl⟩ := accepted
      obtain ⟨rfl, rfl⟩ := pure_eq_read.1 rest
      refine ⟨negative, whole, [], run, rfl, .inl ⟨?_, rfl⟩⟩
      rw [first, Cursor.words_look]

/-- The text of infinity is no number. -/
theorem number_ne_read {cursor after : Cursor} {value : Number.Double} {others : List String}
    {negative : Bool} (words : cursor.words = Number.infinityText negative :: others) :
    number.run cursor ≠ .read value after := by
  intro ran
  obtain ⟨sign, whole, fraction, run, -, spelled⟩ := number_eq_read ran
  have word : Number.infinityText negative = Number.signedDigits sign whole := by
    rcases spelled with ⟨spelled, -⟩ | ⟨spelled, -⟩
    · exact (List.cons.inj (words.symm.trans spelled)).1
    · exact (List.cons.inj (words.symm.trans spelled)).1
  have split := splitSign_signedDigits sign run
  rw [← word] at split
  cases negative <;> (cases split; exact absurd run (by decide))

/-- The text of a finite number, with nothing behind it, is read in full. -/
theorem run_number_text {value : Number.Double} (finite : value.isFinite = true) :
    ∃ stop, number.run (.ofText value.text) = .read value stop ∧ stop.rest = [] := by
  have apart : Apart "." "" := by simp [Apart, words_empty]
  have reads : number.Reads value.text value "" := reads_number finite rfl apart
  obtain ⟨stop, ran, left⟩ := reads (.ofText value.text) (by simp [Cursor.words_ofText])
  rw [words_empty] at left
  exact ⟨stop, ran, Cursor.rest_eq_nil.2 left⟩

end Syntax.Reader

/-- A number that is read is finite exactly when its digits, read as one number, lie below the bound
of the format with as many places as stand after the point. The text that is written for a finite
number is read in full as the same number, and so it is wherever no run and no point follows. The
text that is written for a number that is not finite is that of infinity, and is no number. -/
theorem numbers_of_readers (cursor : Cursor) :
    (∀ value after, number.run cursor = .read value after →
      ∃ negative whole fraction,
        (cursor.words = Number.signedDigits negative whole :: after.words ∧ fraction = [] ∨
          cursor.words = Number.signedDigits negative whole :: "." :: String.ofList fraction ::
            after.words ∧ Text.isDecimal fraction = true) ∧
        Text.isDecimal whole = true ∧
        value = .ofDecimal .double negative (.ofDigits whole fraction) ∧
        (value.isFinite = true ↔ Text.valueOf 10 (whole ++ fraction) <
          Number.Layout.double.limit * 10 ^ fraction.length) ∧
        (value.isFinite = true →
          ∃ stop, number.run (.ofText value.text) = .read value stop ∧ stop.rest = []) ∧
        (value.isFinite = false → value.text = Number.infinityText negative ∧
          ∀ found stop, number.run (.ofText value.text) ≠ .read found stop)) ∧
    ∀ value : Number.Double, value.isFinite = true → ∀ rest, endsRuns rest = true →
      Apart "." rest → number.Reads value.text value rest := by
  refine ⟨?_, fun value finite rest => reads_number finite⟩
  intro value after ran
  obtain ⟨negative, whole, fraction, run, rfl, spelled⟩ := number_eq_read ran
  refine ⟨negative, whole, fraction, spelled, run, rfl,
    Number.Binary.isFinite_ofDecimal negative _, run_number_text, fun past => ?_⟩
  have named := Number.Binary.text_of_not_isFinite past
  refine ⟨named, fun found stop => ?_⟩
  have name : isWord (Number.infinityText negative) = true := by cases negative <;> decide
  have words : words (Number.infinityText negative) = [Number.infinityText negative] := by
    have alone := stands_run name (by decide : endsRuns "" = true)
    rwa [Stands, String.append_empty, words_empty] at alone
  rw [named]
  exact number_ne_read words

/-- A one and three hundred and nine zeros. -/
def longDigits : List Char := '1' :: List.replicate 309 '0'

/-- A number past the bound of the format is read, and is not finite. -/
theorem longDigits_are_infinite :
    ¬ ∀ source value after, number.run (.ofText source) = .read value after →
      value.isFinite = true := by
  intro finite
  have run : Text.isDecimal longDigits = true := by decide +kernel
  have apart : Apart "." "" := by simp [Apart, words_empty]
  have reads := reads_writtenDigits false run (fun pointed => absurd rfl pointed)
    (by decide : endsRuns "" = true) apart
  obtain ⟨after, ran, -⟩ := reads (.ofText _) (Cursor.words_ofText _)
  have below := (Number.Binary.isFinite_ofDecimal _ _).1 (finite _ _ _ ran)
  exact absurd below (by decide +kernel)

end FormPatch
