import FormPatch.Guard

/-!
# Guards in reverse Polish order

In reverse Polish order every operator follows its operands and no parentheses are needed. The
conversion keeps operators waiting on a stack until one that binds less tightly, or the end of
their group, releases them. It fails only on parentheses that do not match.
-/

namespace FormPatch.Guard

/-- Why a list of tokens is no guard. -/
inductive Malformed where
  /-- A closing parenthesis closes nothing. -/
  | closesNothing
  /-- An opening parenthesis is not closed. -/
  | notClosed
  /-- An operator lacks an operand. -/
  | noOperand
  /-- Not exactly one value is left at the end. -/
  | leftOver (count : Nat)
deriving DecidableEq, Repr

/-- The wording of what is wrong with a guard. -/
def Malformed.message : Malformed → String
  | closesNothing => "unmatched ')' in condition"
  | notClosed => "unmatched '(' in condition"
  | noOperand => "operator is missing an operand"
  | leftOver count => s!"condition reduced to {count} values, expected 1"

/-- One step of a calculation in reverse Polish order. -/
inductive Step where
  /-- Ask the host. -/
  | ask (call : Call)
  /-- Combine the last answers. -/
  | combine (operator : Operator)
deriving DecidableEq, Repr

/-- What waits while later tokens are read. -/
inductive Waiting where
  /-- An operator whose last operand is not complete. -/
  | operator (operator : Operator)
  /-- A group that is not closed. -/
  | group
deriving DecidableEq, Repr

/-- Whether a waiting operator comes before the next one: it binds tighter, or as tightly as a
binary one. -/
def comesBefore (waiting next : Operator) : Bool :=
  next.precedence < waiting.precedence ||
    (waiting.precedence == next.precedence && !next.isUnary)

/-- Releases the waiting operators that come before the next one. -/
def release (next : Operator) : List Waiting → List Step × List Waiting
  | .operator waiting :: rest =>
    if comesBefore waiting next then
      let (steps, kept) := release next rest
      (.combine waiting :: steps, kept)
    else ([], .operator waiting :: rest)
  | waiting => ([], waiting)

/-- Releases the operators of the innermost group and closes it, if there is a group. -/
def closeGroup : List Waiting → Option (List Step × List Waiting)
  | [] => none
  | .group :: rest => some ([], rest)
  | .operator waiting :: rest =>
    (closeGroup rest).map fun (steps, kept) => (.combine waiting :: steps, kept)

/-- Releases everything at the end, where no group may be open. -/
def releaseAll : List Waiting → Except Malformed (List Step)
  | [] => .ok []
  | .group :: _ => .error .notClosed
  | .operator waiting :: rest => (releaseAll rest).map (.combine waiting :: ·)

/-- The steps for the rest of a guard, given what waits. -/
def stepsFrom : List Waiting → Guard → Except Malformed (List Step)
  | waiting, [] => releaseAll waiting
  | waiting, .call asked :: rest => (stepsFrom waiting rest).map (.ask asked :: ·)
  | waiting, .operator next :: rest =>
    let (steps, kept) := release next waiting
    (stepsFrom (.operator next :: kept) rest).map (steps ++ ·)
  | waiting, .opening :: rest => stepsFrom (.group :: waiting) rest
  | waiting, .closing :: rest =>
    match closeGroup waiting with
    | none => .error .closesNothing
    | some (steps, kept) => (stepsFrom kept rest).map (steps ++ ·)

/-- A guard in reverse Polish order. -/
def reversePolish (guard : Guard) : Except Malformed (List Step) := stepsFrom [] guard

end FormPatch.Guard
