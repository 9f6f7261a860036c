import FormPatch.Syntax.Value

/-!
# Guards

A guard decides whether a block of statements is active. It is kept as the infix list of its
tokens: calls of predicates, operators and parentheses. Lists that no text stands for are values
of this type too; evaluation finds them out.
-/

namespace FormPatch

/-- What a guard can ask of the host. -/
inductive Question where
  /-- Whether a plugin is active. -/
  | isPluginExists
  /-- Whether a form is live. -/
  | isFormExists
deriving DecidableEq, Repr

namespace Question

/-- The word that asks a question. -/
def word : Question → String
  | isPluginExists => "IsPluginExists"
  | isFormExists => "IsFormExists"

/-- The question that a word asks. -/
def ofWord? (word : String) : Option Question :=
  [isPluginExists, isFormExists].find? fun question => question.word == word

end Question

/-- A question about a plugin or a form. -/
structure Call where
  /-- What is asked. -/
  question : Question
  /-- The plugin's name, or the form's reference. -/
  argument : String
deriving DecidableEq, Repr

/-- The written form of a call. -/
def Call.text (call : Call) : String :=
  match call.question with
  | .isPluginExists => s!"IsPluginExists(\"{call.argument}\")"
  | .isFormExists => s!"IsFormExists({Syntax.formText call.argument})"

/-- How answers are combined. -/
inductive Operator where
  /-- Both must hold. -/
  | both
  /-- One must hold. -/
  | either
  /-- The next one must not hold. -/
  | negate
deriving DecidableEq, Repr

namespace Operator

/-- Operators of greater precedence bind tighter. -/
def precedence : Operator → Nat
  | negate => 3
  | both => 2
  | either => 1

/-- Whether the operator has one operand, which follows it. -/
def isUnary : Operator → Bool
  | negate => true
  | _ => false

/-- The written form of an operator. -/
def symbol : Operator → String
  | both => "&&"
  | either => "||"
  | negate => "!"

end Operator

/-- One element of a guard. -/
inductive GuardToken where
  /-- A call. -/
  | call (asked : Call)
  /-- An operator. -/
  | operator (operator : Operator)
  /-- A parenthesis that opens a group. -/
  | opening
  /-- A parenthesis that closes a group. -/
  | closing
deriving DecidableEq, Repr

namespace GuardToken

/-- Whether an operand is complete after this token. -/
def endsOperand : GuardToken → Bool
  | call _ => true
  | closing => true
  | _ => false

/-- The written form of a token; blanks stand around a binary operator. -/
def text : GuardToken → String
  | call asked => asked.text
  | operator .negate => "!"
  | operator binary => s!" {binary.symbol} "
  | opening => "("
  | closing => ")"

end GuardToken

/-- The tokens of a guard in infix order. -/
abbrev Guard := List GuardToken

namespace Guard

/-- The written form of a guard, without the parentheses around it. -/
def text (guard : Guard) : String :=
  String.join (guard.map GuardToken.text)

end Guard

end FormPatch
