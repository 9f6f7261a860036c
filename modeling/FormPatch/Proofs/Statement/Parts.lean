import FormPatch.Statement

/-!
# The parts of a tree

The expressions and the guards of a statement tree in the order of the text, its statements at
every depth, and how deep blocks lie in each other.
-/

namespace FormPatch

variable {α : Type}

mutual

/-- The expressions of a statement, in order. -/
def Statement.payloads : Statement α → List α
  | .expression payload => [payload]
  | .conditional _ body otherwise => Statement.payloadsAll body ++ otherwise.payloads

/-- The expressions of statements, in order. -/
def Statement.payloadsAll : List (Statement α) → List α
  | [] => []
  | statement :: rest => statement.payloads ++ Statement.payloadsAll rest

/-- The expressions of a chain, in order. -/
def Otherwise.payloads : Otherwise α → List α
  | .nothing => []
  | .block body => Statement.payloadsAll body
  | .branch _ body otherwise => Statement.payloadsAll body ++ otherwise.payloads

end

mutual

/-- The guards of a statement, in order. -/
def Statement.guards : Statement α → List Guard
  | .expression _ => []
  | .conditional guard body otherwise => guard :: (Statement.guardsAll body ++ otherwise.guards)

/-- The guards of statements, in order. -/
def Statement.guardsAll : List (Statement α) → List Guard
  | [] => []
  | statement :: rest => statement.guards ++ Statement.guardsAll rest

/-- The guards of a chain, in order. -/
def Otherwise.guards : Otherwise α → List Guard
  | .nothing => []
  | .block body => Statement.guardsAll body
  | .branch guard body otherwise => guard :: (Statement.guardsAll body ++ otherwise.guards)

end

mutual

/-- The statements in the blocks of a statement, at every depth and in order. -/
def Statement.within : Statement α → List (Statement α)
  | .expression _ => []
  | .conditional _ body otherwise => Statement.all body ++ otherwise.all

/-- Statements and those in their blocks, at every depth and in order. -/
def Statement.all : List (Statement α) → List (Statement α)
  | [] => []
  | statement :: rest => statement :: (statement.within ++ Statement.all rest)

/-- The statements in the blocks of a chain, at every depth and in order. -/
def Otherwise.all : Otherwise α → List (Statement α)
  | .nothing => []
  | .block body => Statement.all body
  | .branch _ body otherwise => Statement.all body ++ otherwise.all

end

mutual

/-- How many chains lie in each other in a statement. -/
def Statement.height : Statement α → Nat
  | .expression _ => 0
  | .conditional _ body otherwise => max (Statement.heightAll body) otherwise.height + 1

/-- How many chains lie in each other in statements. -/
def Statement.heightAll : List (Statement α) → Nat
  | [] => 0
  | statement :: rest => max statement.height (Statement.heightAll rest)

/-- How many chains lie in each other in the blocks of a chain. -/
def Otherwise.height : Otherwise α → Nat
  | .nothing => 0
  | .block body => Statement.heightAll body
  | .branch _ body otherwise => max (Statement.heightAll body) otherwise.height

end

end FormPatch
