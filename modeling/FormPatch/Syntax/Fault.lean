import FormPatch.Token

/-!
# Syntax faults

What can be wrong with a configuration text, and the one wording of each fault. A text that ran
out shows as the empty word.
-/

namespace FormPatch.Syntax

/-- What a reader found wrong. -/
inductive Fault where
  /-- Another word stands where a fixed one must. -/
  | expected (mark found : String)
  /-- No string literal stands where one must. -/
  | notString (found : String)
  /-- A string literal lacks its second quote. -/
  | unclosedString
  /-- A form reference names no plugin. -/
  | emptyPlugin
  /-- The number of a form reference is not hexadecimal. -/
  | formNumber (found : String)
  /-- A decimal number is malformed. -/
  | number (found : String)
  /-- An integer is malformed or too large. -/
  | integer (found : String)
  /-- A slot number is malformed or outside the slots. -/
  | slot (found : String)
  /-- Blocks or groups lie too deep in each other. -/
  | nesting
  /-- The first half of an operator stands alone. -/
  | halfOperator (mark : String)
  /-- A binary operator follows no operand. -/
  | noLeftOperand (operator : String)
  /-- A negation follows a negation. -/
  | doubleNegation
  /-- A negation follows an operand. -/
  | negationAfterOperand
  /-- A guard calls an unknown predicate. -/
  | predicate (found : String)
  /-- A guard or group is empty. -/
  | emptyGuard
  /-- A guard or group ends with an operator. -/
  | endsWithOperator (operator : String)
  /-- An operand follows an operand. -/
  | noOperator
  /-- A statement starts with an unknown filter. -/
  | filter (found : String)
  /-- A statement edits an unknown field. -/
  | element (found : String)
  /-- A list is edited by an unknown operation. -/
  | operation (found : String)
  /-- A list is named and not edited. -/
  | noOperation (field found : String)
  /-- A new editor ID is empty or holds a blank. -/
  | editorId (found : String)
deriving DecidableEq, Repr

/-- What was found, where nothing found means the end of the text. -/
def foundText (found : String) : String :=
  if found = "" then "end of file" else s!"'{found}'"

/-- The wording of a fault. -/
def Fault.message : Fault → String
  | expected mark found => s!"expected '{mark}', found {foundText found}"
  | notString found => s!"expected a quoted string, found {foundText found}"
  | unclosedString => "missing trailing quote"
  | emptyPlugin => "empty plugin name"
  | formNumber found => s!"invalid form ID '{found}'"
  | number found => s!"invalid number '{found}'"
  | integer found => s!"invalid integer '{found}'"
  | slot found => s!"invalid biped slot '{found}', expected 0 or 30-61"
  | nesting => "nesting too deep"
  | halfOperator mark => s!"expected '{mark}{mark}'"
  | noLeftOperand operator => s!"'{operator}' is missing its left operand"
  | doubleNegation => "'!' cannot follow '!'"
  | negationAfterOperand => "'!' must be preceded by an operator"
  | predicate found => s!"invalid keyword '{found}' in condition"
  | emptyGuard => "expected a condition"
  | endsWithOperator operator => s!"condition ends with operator '{operator}'"
  | noOperator => "expected an operator between conditions"
  | filter found => s!"invalid filter '{found}'"
  | element found => s!"invalid element '{found}'"
  | operation found => s!"invalid operation '{found}'"
  | noOperation field found => s!"expected an operation on {field}, found '{found}'"
  | editorId found => s!"invalid editor ID \"{found}\""

/-- A fault and the place of the token that was looked at last when it was found. -/
structure Located where
  /-- What is wrong. -/
  fault : Fault
  /-- Where it was found. -/
  position : Position
deriving DecidableEq, Repr

end FormPatch.Syntax
