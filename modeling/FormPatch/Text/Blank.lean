/-!
# Blank characters

The characters with the Unicode property `White_Space`. Between tokens they only separate, and
an editor ID may hold none of them. Main statement: every character that the core library counts
as whitespace is blank.
-/

namespace FormPatch.Text

/-- The closed ranges of code points with the property `White_Space`, in ascending order. -/
def blankRanges : List (Nat × Nat) :=
  [(0x0009, 0x000D), (0x0020, 0x0020), (0x0085, 0x0085), (0x00A0, 0x00A0), (0x1680, 0x1680),
    (0x2000, 0x200A), (0x2028, 0x2029), (0x202F, 0x202F), (0x205F, 0x205F), (0x3000, 0x3000)]

/-- A character is blank when its code point lies in one of the ranges. -/
def isBlank (character : Char) : Bool :=
  blankRanges.any fun (first, last) => first ≤ character.toNat && character.toNat ≤ last

/-- The property holds of twenty-five code points. -/
theorem blankRanges_count :
    blankRanges.foldl (fun total (first, last) => total + (last + 1 - first)) 0 = 25 := by decide

/-- Whatever the core library calls whitespace is blank. -/
theorem isBlank_of_isWhitespace (character : Char) (h : character.isWhitespace = true) :
    isBlank character = true := by
  have cases : character = ' ' ∨ character = '\t' ∨ character = '\r' ∨ character = '\n' := by
    simpa [Char.isWhitespace, or_assoc] using h
  rcases cases with rfl | rfl | rfl | rfl <;> decide

end FormPatch.Text
