/-!
# Letter case

Plugin names, editor IDs and file extensions compare without regard to the case of ASCII letters;
all other characters compare as they are.
-/

namespace FormPatch.Text

/-- The text with its ASCII capitals made small. -/
def fold (text : String) : String :=
  String.ofList (text.toList.map Char.toLower)

/-- Two texts agree when they differ at most in the case of ASCII letters. -/
def agree (left right : String) : Bool :=
  fold left == fold right

/-- Texts agree without case exactly when they fold alike. -/
@[simp] theorem agree_iff {left right : String} :
    agree left right = true ↔ fold left = fold right := by
  simp [agree]

end FormPatch.Text
