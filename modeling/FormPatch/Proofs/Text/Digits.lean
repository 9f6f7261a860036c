import FormPatch.Proofs.Token.Words
import FormPatch.Text.Digits

/-!
# Runs of digits as words

A run of digits, with a minus sign in front or without, is one word. The decimal digits of a number
denote it, also behind zeros, and so do its hexadecimal ones.
-/

namespace FormPatch

namespace Text

/-- The code points of hexadecimal digits. -/
theorem toNat_of_isHexDigit {character : Char} (digit : isHexDigit character = true) :
    (48 ≤ character.toNat ∧ character.toNat ≤ 57) ∨
      (65 ≤ character.toNat ∧ character.toNat ≤ 70) ∨
        (97 ≤ character.toNat ∧ character.toNat ≤ 102) := by
  unfold isHexDigit digitValue? at digit
  split at digit
  · next range => exact .inl range
  · split at digit
    · next range => exact .inr (.inr range)
    · split at digit
      · next range => exact .inr (.inl range)
      · cases digit

/-- The value of a decimal digit is its distance from zero. -/
theorem digitValue?_of_isDigit {character : Char} (digit : character.isDigit = true) :
    digitValue? character = some (character.toNat - '0'.toNat) := by
  have range : '0' ≤ character ∧ character ≤ '9' := by
    simpa [Char.isDigit, Char.le_def, UInt32.le_iff_toNat_le] using digit
  rw [digitValue?, if_pos range]

/-- A decimal digit is a hexadecimal one. -/
theorem isHexDigit_of_isDigit {character : Char} (digit : character.isDigit = true) :
    isHexDigit character = true := by
  rw [isHexDigit, digitValue?_of_isDigit digit, Option.isSome_some]

/-- A run of decimal digits is one of hexadecimal digits. -/
theorem isHexRun_of_isDecimal {digits : List Char} (decimal : isDecimal digits = true) :
    isHexRun digits = true := by
  simp only [isDecimal, isHexRun, Bool.and_eq_true, List.all_eq_true] at decimal ⊢
  exact ⟨decimal.1, fun character member => isHexDigit_of_isDigit (decimal.2 character member)⟩

/-- A digit is no other sign. -/
theorem ne_of_isHexDigit {character other : Char} (digit : isHexDigit character = true)
    (apart : isHexDigit other = false) : character ≠ other := by
  rintro rfl
  rw [digit] at apart
  cases apart

/-- A run of digits holds no other sign. -/
theorem not_mem_of_isHexRun {digits : List Char} {other : Char} (run : isHexRun digits = true)
    (apart : isHexDigit other = false) : other ∉ digits := by
  intro member
  simp only [isHexRun, Bool.and_eq_true, List.all_eq_true] at run
  exact ne_of_isHexDigit (run.2 other member) apart rfl

/-- No digit ends a run. -/
theorem continuesWord_of_isHexDigit {character : Char} (digit : isHexDigit character = true) :
    continuesWord character = true := by
  have range := toNat_of_isHexDigit digit
  have blank : isBlank character = false := by
    simp only [isBlank, blankRanges, List.any_cons, List.any_nil, Bool.or_false,
      Bool.or_eq_false_iff, Bool.and_eq_false_iff, decide_eq_false_iff_not]
    omega
  have comment : character ≠ '#' := ne_of_isHexDigit digit (by decide)
  have delimiter : isDelimiter character = false := by
    have apart : (delimiters.all fun mark => !isHexDigit mark) = true := rfl
    simp only [List.all_eq_true, Bool.not_eq_true'] at apart
    rw [isDelimiter, Bool.eq_false_iff, ne_eq, List.contains_iff_mem]
    intro member
    exact ne_of_isHexDigit digit (apart character member) rfl
  simp [continuesWord, blank, comment, delimiter]

/-- A run of hexadecimal digits is a word. -/
theorem isWord_of_isHexRun {digits : List Char} (run : isHexRun digits = true) :
    isWord (String.ofList digits) = true := by
  cases digits with
  | nil => cases run
  | cons first others =>
    simp only [isHexRun, List.isEmpty_cons, Bool.not_false, Bool.true_and, List.all_eq_true] at run
    simp only [isWord, String.toList_ofList, Bool.and_eq_true, bne_iff_ne, List.all_eq_true]
    exact ⟨ne_of_isHexDigit (run first List.mem_cons_self) (by decide),
      fun character member => continuesWord_of_isHexDigit (run character member)⟩

/-- A minus sign joins the digits behind it. -/
theorem isWord_of_minus {digits : List Char} (run : isHexRun digits = true) :
    isWord (String.ofList ('-' :: digits)) = true := by
  simp only [isHexRun, Bool.and_eq_true, List.all_eq_true] at run
  simp only [isWord, String.toList_ofList, List.all_cons, Bool.and_eq_true, List.all_eq_true]
  exact ⟨by decide, by decide, fun character member =>
    continuesWord_of_isHexDigit (run.2 character member)⟩

/-- A run of digits has no mark in front. -/
theorem dropHexMark_of_isHexRun {digits : List Char} (run : isHexRun digits = true) :
    dropHexMark digits = digits := by
  unfold dropHexMark
  split
  · next digits => simp [isHexRun, show isHexDigit 'x' = false by decide] at run
  · next digits => simp [isHexRun, show isHexDigit 'X' = false by decide] at run
  · rfl

/-- The decimal digits of a number are a run. -/
theorem isDecimal_toDigits (value : Nat) : isDecimal (Nat.toDigits 10 value) = true := by
  simp only [isDecimal, Bool.and_eq_true, List.all_eq_true, Bool.not_eq_true',
    List.isEmpty_eq_false_iff]
  exact ⟨Nat.toDigits_ne_nil,
    fun _ member => Nat.isDigit_of_mem_toDigits (by decide) (by decide) member⟩

/-- Behind other digits, decimal digits are read on from their value. -/
theorem foldl_digitValue {digits : List Char} (decimal : digits.all Char.isDigit = true)
    (start : Nat) :
    digits.foldl (fun value digit => value * 10 + (digitValue? digit).getD 0) start =
      Nat.ofDigitChars 10 digits start := by
  induction digits generalizing start with
  | nil => rfl
  | cons digit others ih =>
    simp only [List.all_cons, Bool.and_eq_true] at decimal
    rw [List.foldl_cons, ih decimal.2, digitValue?_of_isDigit decimal.1, Option.getD_some,
      Nat.mul_comm]
    rfl

/-- The decimal digits of a number denote it. -/
theorem valueOf_toDigits (value : Nat) : valueOf 10 (Nat.toDigits 10 value) = value := by
  have decimal := isDecimal_toDigits value
  simp only [isDecimal, Bool.and_eq_true] at decimal
  rw [valueOf, foldl_digitValue decimal.2, Nat.ofDigitChars_toDigits (by decide) (by decide)]

/-- Zeros in front of digits do not matter. -/
theorem valueOf_zeros (count : Nat) (digits : List Char) :
    valueOf 10 (List.replicate count '0' ++ digits) = valueOf 10 digits := by
  induction count with
  | zero => rfl
  | succ count ih =>
    rw [List.replicate_succ, List.cons_append, valueOf, List.foldl_cons]
    exact ih

/-- The decimal digits of a number are read as the number. -/
theorem decimal?_toDigits (value : Nat) : decimal? (Nat.toDigits 10 value) = some value := by
  rw [decimal?, if_pos (isDecimal_toDigits value), valueOf_toDigits]

/-- A run of digits carries no sign. -/
theorem natural?_of_isDecimal {digits : List Char} (decimal : isDecimal digits = true) :
    natural? digits = decimal? digits := by
  unfold natural?
  split
  · simp [isDecimal] at decimal
  · rfl

/-- A number is read from its decimal digits. -/
theorem natural?_repr (value : Nat) : natural? (Nat.repr value).toList = some value := by
  rw [Nat.repr, String.toList_ofList, natural?_of_isDecimal (isDecimal_toDigits value),
    decimal?_toDigits]

/-- An integer is read from its sign and digits. -/
theorem integer?_repr (value : Int) : integer? value.repr.toList = some value := by
  cases value with
  | ofNat value =>
    have decimal := isDecimal_toDigits value
    show integer? (Nat.repr value).toList = _
    unfold integer?
    split
    · next digits spelled =>
      rw [Nat.repr, String.toList_ofList] at spelled
      rw [spelled] at decimal
      simp [isDecimal] at decimal
    · rw [natural?_repr]
      rfl
  | negSucc value =>
    have spelled : (Int.negSucc value).repr.toList = '-' :: Nat.toDigits 10 (value + 1) := by
      simp [Int.repr, Nat.repr]
    rw [spelled, integer?, decimal?_toDigits]
    rfl

/-- The decimal digits of a number are one word. -/
theorem isWord_natRepr (value : Nat) : isWord (Nat.repr value) = true :=
  isWord_of_isHexRun (isHexRun_of_isDecimal (isDecimal_toDigits value))

/-- The sign and digits of an integer are one word. -/
theorem isWord_intRepr (value : Int) : isWord value.repr = true := by
  cases value with
  | ofNat value => exact isWord_natRepr value
  | negSucc value =>
    have spelled : (Int.negSucc value).repr = String.ofList ('-' :: Nat.toDigits 10 (value + 1)) :=
      String.toList_inj.1 (by simp [Int.repr, Nat.repr])
    rw [spelled]
    exact isWord_of_minus (isHexRun_of_isDecimal (isDecimal_toDigits _))

/-- A digit has the same value in upper case. -/
theorem digitValue?_toUpper : ∀ digit < 16,
    digitValue? (Nat.digitChar digit).toUpper = some digit := by
  decide

/-- A number below sixteen is written as one digit. -/
theorem hexText_of_lt {value : Nat} (small : value < 16) :
    hexText value = [(Nat.digitChar value).toUpper] := by
  rw [hexText, Nat.toDigits_of_lt_base small]
  rfl

/-- The last hexadecimal digit of a number is the remainder, and those in front of it are the digits
of the quotient. -/
theorem hexText_of_le {value : Nat} (large : 16 ≤ value) :
    hexText value = hexText (value / 16) ++ [(Nat.digitChar (value % 16)).toUpper] := by
  rw [hexText, Nat.toDigits_of_base_le (by decide) large, List.map_append]
  rfl

/-- The hexadecimal digits of a number are a run. -/
theorem isHexRun_hexText (value : Nat) : isHexRun (hexText value) = true := by
  induction value using Nat.strongRecOn with
  | ind value ih =>
    by_cases small : value < 16
    · simp [hexText_of_lt small, isHexRun, isHexDigit, digitValue?_toUpper value small]
    · have last := digitValue?_toUpper (value % 16) (Nat.mod_lt value (by decide))
      have front := ih (value / 16) (by omega)
      rw [hexText_of_le (Nat.le_of_not_lt small)]
      simp only [isHexRun, Bool.and_eq_true] at front ⊢
      simp [List.all_append, front.2, isHexDigit, last]

/-- The hexadecimal digits of a number denote it. -/
theorem valueOf_hexText (value : Nat) : valueOf 16 (hexText value) = value := by
  induction value using Nat.strongRecOn with
  | ind value ih =>
    by_cases small : value < 16
    · simp [hexText_of_lt small, valueOf, digitValue?_toUpper value small]
    · have last := digitValue?_toUpper (value % 16) (Nat.mod_lt value (by decide))
      have front := ih (value / 16) (by omega)
      rw [valueOf] at front
      rw [hexText_of_le (Nat.le_of_not_lt small), valueOf, List.foldl_append, front,
        List.foldl_cons, List.foldl_nil, last, Option.getD_some]
      omega

end Text

end FormPatch
