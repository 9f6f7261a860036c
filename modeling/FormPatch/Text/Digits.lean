/-!
# Runs of digits

Decimal and hexadecimal runs are read place by place from the most significant digit, without
limit on their length. A caller that wants a bounded number compares the value with its bound.
-/

namespace FormPatch.Text

/-- The value of a hexadecimal digit of either case. -/
def digitValue? (character : Char) : Option Nat :=
  if '0' ≤ character ∧ character ≤ '9' then some (character.toNat - '0'.toNat)
  else if 'a' ≤ character ∧ character ≤ 'f' then some (character.toNat - 'a'.toNat + 10)
  else if 'A' ≤ character ∧ character ≤ 'F' then some (character.toNat - 'A'.toNat + 10)
  else none

/-- A hexadecimal digit is one of `0`-`9`, `a`-`f` and `A`-`F`. -/
def isHexDigit (character : Char) : Bool :=
  (digitValue? character).isSome

/-- The number that a run of digits denotes in a base; a character that is no digit counts as
zero, so callers test the run first. -/
def valueOf (base : Nat) (digits : List Char) : Nat :=
  digits.foldl (fun value digit => value * base + (digitValue? digit).getD 0) 0

/-- A nonempty run of the digits `0`-`9`. -/
def isDecimal (digits : List Char) : Bool :=
  !digits.isEmpty && digits.all Char.isDigit

/-- A nonempty run of hexadecimal digits. -/
def isHexRun (digits : List Char) : Bool :=
  !digits.isEmpty && digits.all isHexDigit

/-- The number that a nonempty decimal run denotes. -/
def decimal? (digits : List Char) : Option Nat :=
  if isDecimal digits then some (valueOf 10 digits) else none

/-- An unsigned decimal, which may carry a plus sign. -/
def natural? : List Char → Option Nat
  | '+' :: digits => decimal? digits
  | digits => decimal? digits

/-- A decimal that may carry a sign. -/
def integer? : List Char → Option Int
  | '-' :: digits => (decimal? digits).map fun value => -(value : Int)
  | digits => (natural? digits).map fun value => (value : Int)

/-- A hexadecimal number without the mark `0x` or `0X` that may precede it. -/
def dropHexMark : List Char → List Char
  | '0' :: 'x' :: digits => digits
  | '0' :: 'X' :: digits => digits
  | digits => digits

/-- Whether a text is a nonempty run of hexadecimal digits, with or without its mark. -/
def isHexNumber (text : String) : Bool :=
  isHexRun (dropHexMark text.toList)

/-- A text without the hexadecimal mark that may precede it. -/
def stripHexMark (text : String) : String :=
  String.ofList (dropHexMark text.toList)

/-- A number in hexadecimal capitals, without leading zeros. -/
def hexText (value : Nat) : List Char :=
  (Nat.toDigits 16 value).map Char.toUpper

end FormPatch.Text
