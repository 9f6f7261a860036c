import FormPatch.Guard

/-!
# Statements

A configuration file is a list of statements. A statement is an expression, whose form the record
type decides, or a chain of guarded blocks of statements, of which at most one is active.
-/

namespace FormPatch

mutual

/-- A statement over the expressions of one record type. -/
inductive Statement (α : Type) where
  /-- An expression. -/
  | expression (payload : α)
  /-- A block behind a guard, and what stands in its place when the guard does not hold. -/
  | conditional (guard : Guard) (body : List (Statement α)) (otherwise : Otherwise α)

/-- What follows a guarded block. -/
inductive Otherwise (α : Type) where
  /-- Nothing. -/
  | nothing
  /-- A block without a guard. -/
  | block (body : List (Statement α))
  /-- A block behind a guard of its own, and what follows it. -/
  | branch (guard : Guard) (body : List (Statement α)) (otherwise : Otherwise α)

end

namespace Otherwise

/-- The guarded blocks of a chain, in order. -/
def branches {α : Type} : Otherwise α → List (Guard × List (Statement α))
  | nothing => []
  | block _ => []
  | branch guard body otherwise => (guard, body) :: otherwise.branches

/-- The block at the end of a chain, if there is one. -/
def last? {α : Type} : Otherwise α → Option (List (Statement α))
  | nothing => none
  | block body => some body
  | branch _ _ otherwise => otherwise.last?

/-- The chain of some guarded blocks and perhaps a last one. -/
def ofBranches {α : Type} :
    List (Guard × List (Statement α)) → Option (List (Statement α)) → Otherwise α
  | [], none => nothing
  | [], some body => block body
  | (guard, body) :: rest, last => branch guard body (ofBranches rest last)

end Otherwise

section Equality

variable {α : Type} [BEq α]

mutual

/-- Whether two statements are alike. -/
def Statement.alike : Statement α → Statement α → Bool
  | .expression left, .expression right => left == right
  | .conditional guard body otherwise, .conditional guard' body' otherwise' =>
    guard == guard' && alikeAll body body' && otherwise.alike otherwise'
  | _, _ => false

/-- Whether two lists of statements are alike. -/
def alikeAll : List (Statement α) → List (Statement α) → Bool
  | [], [] => true
  | left :: lefts, right :: rights => left.alike right && alikeAll lefts rights
  | _, _ => false

/-- Whether two chains are alike. -/
def Otherwise.alike : Otherwise α → Otherwise α → Bool
  | .nothing, .nothing => true
  | .block body, .block body' => alikeAll body body'
  | .branch guard body otherwise, .branch guard' body' otherwise' =>
    guard == guard' && alikeAll body body' && otherwise.alike otherwise'
  | _, _ => false

end

end Equality

end FormPatch
