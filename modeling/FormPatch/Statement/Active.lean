import FormPatch.Guard.Evaluation
import FormPatch.Statement

/-!
# Active expressions

Of each chain at most one block is active: the first one whose guard holds, or else the last one
if it has no guard. Guards after the first one that holds are not evaluated.
-/

namespace FormPatch

variable {α : Type}

mutual

/-- The active expressions of a statement, in order, and what its guards reported. -/
def Statement.active (host : Host) : Statement α → List α × List Diagnostic
  | .expression payload => ([payload], [])
  | .conditional guard body otherwise =>
    let (holds, reports) := guard.evaluate host
    let (payloads, later) := if holds then activeAll host body else otherwise.active host
    (payloads, reports ++ later)

/-- The active expressions of statements, in order, and what their guards reported. -/
def activeAll (host : Host) : List (Statement α) → List α × List Diagnostic
  | [] => ([], [])
  | statement :: rest =>
    let (payloads, reports) := statement.active host
    let (others, later) := activeAll host rest
    (payloads ++ others, reports ++ later)

/-- The active expressions behind a guard that does not hold. -/
def Otherwise.active (host : Host) : Otherwise α → List α × List Diagnostic
  | .nothing => ([], [])
  | .block body => activeAll host body
  | .branch guard body otherwise =>
    let (holds, reports) := guard.evaluate host
    let (payloads, later) := if holds then activeAll host body else otherwise.active host
    (payloads, reports ++ later)

end

end FormPatch
