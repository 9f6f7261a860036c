import FormPatch.Diagnostic
import FormPatch.Guard.ReversePolish
import FormPatch.Store

/-!
# Evaluating guards

A guard is answered by running its steps in reverse Polish order on a stack of answers. A list of
tokens that is no guard is reported as critical and counts as false.
-/

namespace FormPatch

/-- The host's answer to a call. A text that is no form reference names no live form. -/
def Call.answer (call : Call) (host : Host) : Bool :=
  match call.question with
  | .isPluginExists => host.isActive call.argument
  | .isFormExists => (FormReference.parse? call.argument).any host.isLive

namespace Guard

/-- Runs steps on a stack of answers, which must leave exactly one. -/
def run (host : Host) : List Bool → List Step → Except Malformed Bool
  | [answer], [] => .ok answer
  | answers, [] => .error (.leftOver answers.length)
  | answers, .ask asked :: rest => run host (asked.answer host :: answers) rest
  | answer :: answers, .combine .negate :: rest => run host ((!answer) :: answers) rest
  | right :: left :: answers, .combine .both :: rest => run host ((left && right) :: answers) rest
  | right :: left :: answers, .combine .either :: rest =>
    run host ((left || right) :: answers) rest
  | _, .combine _ :: _ => .error .noOperand

/-- The value of a guard, or what is wrong with it. -/
def value? (guard : Guard) (host : Host) : Except Malformed Bool := do
  let steps ← guard.reversePolish
  run host [] steps

/-- The diagnostic for a list of tokens that is no guard. -/
def report (malformed : Malformed) : Diagnostic :=
  .ofFailure .critical (.inconsistent malformed.message) none

/-- Whether a guard holds, and what had to be reported. -/
def evaluate (guard : Guard) (host : Host) : Bool × List Diagnostic :=
  match guard.value? host with
  | .ok value => (value, [])
  | .error malformed => (false, [report malformed])

end Guard

end FormPatch
