import FormPatch.Statement
import FormPatch.Statement.Grammar

/-!
# Writing statements

Every expression stands on a line of its own. A block is indented by one level, its opening brace
ends the line of its guard, and what follows it starts on the line of its closing brace.
-/

namespace FormPatch

open Syntax

variable {α : Type}

mutual

/-- A statement at a level of nesting, with the line break at its end. -/
def Statement.text (grammar : Grammar α) (level : Nat) : Statement α → String
  | .expression payload => grammar.write level payload ++ "\n"
  | .conditional guard body otherwise =>
    indent level ++ "if (" ++ guard.text ++ ") \x7b\n" ++
      statementsText grammar (level + 1) body ++ indent level ++ "\x7d" ++
      otherwise.text grammar level ++ "\n"

/-- Statements at a level of nesting. -/
def statementsText (grammar : Grammar α) (level : Nat) : List (Statement α) → String
  | [] => ""
  | statement :: rest => statement.text grammar level ++ statementsText grammar level rest

/-- What follows the closing brace of a guarded block. -/
def Otherwise.text (grammar : Grammar α) (level : Nat) : Otherwise α → String
  | .nothing => ""
  | .block body =>
    " else \x7b\n" ++ statementsText grammar (level + 1) body ++ indent level ++ "\x7d"
  | .branch guard body otherwise =>
    " else if (" ++ guard.text ++ ") \x7b\n" ++ statementsText grammar (level + 1) body ++
      indent level ++ "\x7d" ++ otherwise.text grammar level

end

/-- The text of a file with the given statements. -/
def Grammar.fileText (grammar : Grammar α) (statements : List (Statement α)) : String :=
  statementsText grammar 0 statements

end FormPatch
