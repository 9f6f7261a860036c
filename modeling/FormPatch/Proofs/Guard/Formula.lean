import FormPatch.Guard.Evaluation

/-!
# Formulas

A formula is a derivation in the precedence grammar of guards. A disjunction is a chain of
conjunctions, a conjunction a chain of unaries, and a unary is an atom behind any number of
negations; an atom is a call or a disjunction in parentheses. A chain is kept as its longest
shorter chain and its last link, so equal operators group to the left.

Main statement: the value of a guard that a formula stands for is the value of the formula.
-/

namespace FormPatch.Guard

/-- How loosely a part of a guard is bound, from a single operand to a whole guard. -/
inductive Tier where
  /-- A call or a group. -/
  | atom
  /-- An atom behind negations. -/
  | unary
  /-- Unaries that must all hold. -/
  | conjunction
  /-- Conjunctions of which one must hold. -/
  | disjunction
deriving DecidableEq, Repr

/-- A derivation of a part of a guard. -/
inductive Formula : Tier → Type where
  /-- A question to the host. -/
  | call (asked : Call) : Formula .atom
  /-- A guard in parentheses. -/
  | group (inside : Formula .disjunction) : Formula .atom
  /-- An atom without a negation. -/
  | plain (operand : Formula .atom) : Formula .unary
  /-- A negation and its operand. -/
  | negation (operand : Formula .unary) : Formula .unary
  /-- The first link of a conjunction. -/
  | first (operand : Formula .unary) : Formula .conjunction
  /-- A conjunction and its last link. -/
  | both (left : Formula .conjunction) (right : Formula .unary) : Formula .conjunction
  /-- The first link of a disjunction. -/
  | only (operand : Formula .conjunction) : Formula .disjunction
  /-- A disjunction and its last link. -/
  | either (left : Formula .disjunction) (right : Formula .conjunction) : Formula .disjunction
deriving Repr

namespace Formula

variable {tier : Tier}

/-- The tokens that a formula stands for. -/
def tokens {tier : Tier} : Formula tier → Guard
  | call asked => [.call asked]
  | group inside => .opening :: inside.tokens ++ [.closing]
  | plain operand => operand.tokens
  | negation operand => .operator .negate :: operand.tokens
  | first operand => operand.tokens
  | both left right => left.tokens ++ .operator .both :: right.tokens
  | only operand => operand.tokens
  | either left right => left.tokens ++ .operator .either :: right.tokens

/-- Whether a formula holds of a host. -/
def value {tier : Tier} (host : Host) : Formula tier → Bool
  | call asked => asked.answer host
  | group inside => inside.value host
  | plain operand => operand.value host
  | negation operand => !operand.value host
  | first operand => operand.value host
  | both left right => left.value host && right.value host
  | only operand => operand.value host
  | either left right => left.value host || right.value host

/-- The operators that still wait when the last token of a formula has been read, the latest
first. -/
def pending {tier : Tier} : Formula tier → List Operator
  | call _ => []
  | group _ => []
  | plain operand => operand.pending
  | negation operand => operand.pending ++ [.negate]
  | first operand => operand.pending
  | both _ right => right.pending ++ [.both]
  | only operand => operand.pending
  | either _ right => right.pending ++ [.either]

/-- The steps that are out when the last token of a formula has been read. -/
def released {tier : Tier} : Formula tier → List Step
  | call asked => [.ask asked]
  | group inside => inside.released ++ inside.pending.map .combine
  | plain operand => operand.released
  | negation operand => operand.released
  | first operand => operand.released
  | both left right => left.released ++ left.pending.map .combine ++ right.released
  | only operand => operand.released
  | either left right => left.released ++ left.pending.map .combine ++ right.released

/-- A formula in reverse Polish order. -/
def steps (formula : Formula tier) : List Step :=
  formula.released ++ formula.pending.map .combine

end Formula

/-- The operators that a formula of a tier may hold outside its groups. -/
def Tier.operators : Tier → List Operator
  | .atom => []
  | .unary => [.negate]
  | .conjunction => [.negate, .both]
  | .disjunction => [.negate, .both, .either]

/-- A conjunction may hold what a unary may. -/
theorem Tier.operators_unary : ∀ operator ∈ unary.operators, operator ∈ conjunction.operators := by
  decide

/-- A disjunction may hold what a conjunction may. -/
theorem Tier.operators_conjunction :
    ∀ operator ∈ conjunction.operators, operator ∈ disjunction.operators := by
  decide

/-- What waits behind a conjunction comes before the operator of conjunctions. -/
theorem Tier.before_both :
    ∀ operator ∈ conjunction.operators, comesBefore operator .both = true := by
  decide

/-- Whatever waits comes before the operator of disjunctions. -/
theorem before_either (operator : Operator) : comesBefore operator .either = true := by
  cases operator <;> rfl

/-- What waits is settled for a tier when none of the tier's operators releases any of it. -/
def Settled (tier : Tier) (waiting : List Waiting) : Prop :=
  ∀ next ∈ tier.operators, release next waiting = ([], waiting)

/-- A negation releases nothing. -/
theorem release_negate (waiting : List Waiting) : release .negate waiting = ([], waiting) := by
  cases waiting with
  | nil => rfl
  | cons top rest =>
    cases top with
    | group => rfl
    | operator top => cases top <;> rfl

/-- The end of a group and the end of a guard settle every tier. -/
theorem settled_nil (tier : Tier) : Settled tier [] := by
  intro next _
  rfl

/-- Nothing is released past the parenthesis that opens a group. -/
theorem settled_group (tier : Tier) (waiting : List Waiting) :
    Settled tier (.group :: waiting) := by
  intro next _
  rfl

/-- What is settled for unaries is any list. -/
theorem settled_unary (waiting : List Waiting) : Settled .unary waiting := by
  intro next member
  obtain rfl : next = .negate := by simpa [Tier.operators] using member
  exact release_negate waiting

/-- A disjunction that waits is settled for the conjunction behind it. -/
theorem settled_either (waiting : List Waiting) :
    Settled .conjunction (.operator .either :: waiting) := by
  intro next member
  have named : next = .negate ∨ next = .both := by simpa [Tier.operators] using member
  rcases named with rfl | rfl <;> rfl

/-- What is settled for disjunctions is settled for conjunctions. -/
theorem Settled.conjunction {waiting : List Waiting} (settled : Settled .disjunction waiting) :
    Settled .conjunction waiting := by
  intro next member
  exact settled next (Tier.operators_conjunction next member)

/-- An operator releases those in front that come before it, and goes on behind them. -/
theorem release_append (next : Operator) (operators : List Operator) (waiting : List Waiting)
    (before : ∀ operator ∈ operators, comesBefore operator next = true) :
    release next (operators.map .operator ++ waiting) =
      (operators.map .combine ++ (release next waiting).1, (release next waiting).2) := by
  induction operators with
  | nil => rfl
  | cons operator rest ih =>
    have head : comesBefore operator next = true := before operator List.mem_cons_self
    have tail := ih fun other member => before other (List.mem_cons_of_mem operator member)
    simp only [List.map_cons, List.cons_append, release, head, ↓reduceIte, tail]

/-- Closing a group releases the operators in front of it. -/
theorem closeGroup_append (operators : List Operator) (waiting : List Waiting) :
    closeGroup (operators.map .operator ++ .group :: waiting) =
      some (operators.map .combine, waiting) := by
  induction operators with
  | nil => rfl
  | cons operator rest ih => simp [closeGroup, ih]

/-- Where only operators wait, the end releases them all. -/
theorem releaseAll_operators (operators : List Operator) :
    releaseAll (operators.map .operator) = .ok (operators.map .combine) := by
  induction operators with
  | nil => rfl
  | cons operator rest ih =>
    simp only [List.map_cons, releaseAll, ih]
    rfl

/-- Putting nothing in front of steps. -/
theorem map_nil_append (result : Except Malformed (List Step)) :
    result.map ([] ++ ·) = result := by
  cases result <;> rfl

/-- Two changes of steps one after the other are one change. -/
theorem map_map (inner outer : List Step → List Step) (result : Except Malformed (List Step)) :
    (result.map inner).map outer = result.map fun steps => outer (inner steps) := by
  cases result <;> rfl

namespace Formula

variable {tier : Tier}

/-- What waits behind a formula are operators of its tier. -/
theorem pending_operators (formula : Formula tier) :
    ∀ operator ∈ formula.pending, operator ∈ tier.operators := by
  induction formula with
  | call asked => simp [pending]
  | group inside => simp [pending]
  | plain operand ih =>
    intro operator member
    exact absurd (ih operator member) (by simp [Tier.operators])
  | negation operand ih => simpa [pending, or_imp, forall_and, Tier.operators] using ih
  | first operand ih =>
    intro operator member
    exact Tier.operators_unary operator (ih operator member)
  | both left right _ ih =>
    intro operator member
    rcases List.mem_append.1 member with member | member
    · exact Tier.operators_unary operator (ih operator member)
    · obtain rfl := List.mem_singleton.1 member
      decide
  | only operand ih =>
    intro operator member
    exact Tier.operators_conjunction operator (ih operator member)
  | either left right _ ih =>
    intro operator member
    rcases List.mem_append.1 member with member | member
    · exact Tier.operators_conjunction operator (ih operator member)
    · obtain rfl := List.mem_singleton.1 member
      decide

/-- Reading the tokens of a formula puts out its released steps and leaves its pending operators
in front of what waited, which is not touched. -/
theorem stepsFrom_tokens (formula : Formula tier) (waiting : List Waiting)
    (settled : Settled tier waiting) (rest : Guard) :
    stepsFrom waiting (formula.tokens ++ rest) =
      (stepsFrom (formula.pending.map .operator ++ waiting) rest).map
        (formula.released ++ ·) := by
  induction formula generalizing waiting rest with
  | call asked => rfl
  | group inside ih =>
    have opened := ih (.group :: waiting) (settled_group _ waiting) (.closing :: rest)
    simp only [tokens, List.cons_append, List.append_assoc, List.nil_append, stepsFrom, opened,
      closeGroup_append, map_map]
    simp [pending, released]
  | plain operand ih =>
    have inside := ih waiting (fun next member => by simp [Tier.operators] at member) rest
    exact inside
  | negation operand ih =>
    have inside := ih (.operator .negate :: waiting) (settled_unary _) rest
    simp only [tokens, List.cons_append, stepsFrom, release_negate, inside, map_nil_append]
    simp [pending, released]
  | first operand ih =>
    exact ih waiting (settled_unary waiting) rest
  | both left right leftIh rightIh =>
    -- The operator between the links releases what the left one left waiting, and no more.
    have ahead := leftIh waiting settled (.operator .both :: (right.tokens ++ rest))
    have waits := settled .both (by decide)
    have behind := rightIh (.operator .both :: waiting) (settled_unary _) rest
    have earlier : ∀ operator ∈ left.pending, comesBefore operator .both = true :=
      fun operator member => Tier.before_both operator (left.pending_operators operator member)
    have releases := release_append .both left.pending waiting earlier
    simp only [tokens, List.append_assoc, List.cons_append, ahead, stepsFrom, releases, waits,
      List.append_nil, behind, map_map]
    simp [pending, released]
  | only operand ih =>
    exact ih waiting settled.conjunction rest
  | either left right leftIh rightIh =>
    have ahead := leftIh waiting settled (.operator .either :: (right.tokens ++ rest))
    have waits := settled .either (by decide)
    have behind := rightIh (.operator .either :: waiting) (settled_either waiting) rest
    have releases := release_append .either left.pending waiting fun operator _ =>
      before_either operator
    simp only [tokens, List.append_assoc, List.cons_append, ahead, stepsFrom, releases, waits,
      List.append_nil, behind, map_map]
    simp [pending, released]

/-- The conversion of a guard that a formula stands for lists the steps of the formula. -/
theorem reversePolish_tokens (formula : Formula .disjunction) :
    reversePolish formula.tokens = .ok formula.steps := by
  have converted := formula.stepsFrom_tokens [] (settled_nil _) []
  simp only [List.append_nil, stepsFrom, releaseAll_operators] at converted
  exact converted

/-- Running the steps of a formula puts its value on the stack. -/
theorem run_steps (host : Host) (formula : Formula tier) (answers : List Bool)
    (rest : List Step) :
    run host answers (formula.steps ++ rest) = run host (formula.value host :: answers) rest := by
  induction formula generalizing answers rest with
  | call asked => simp [steps, released, pending, run, value]
  | group inside ih => simpa [steps, released, pending, value] using ih answers rest
  | plain operand ih => exact ih answers rest
  | negation operand ih =>
    have inside := ih answers (.combine .negate :: rest)
    simpa [steps, released, pending, run, value] using inside
  | first operand ih => exact ih answers rest
  | both left right leftIh rightIh =>
    have ahead := leftIh answers (right.steps ++ .combine .both :: rest)
    have behind := rightIh (left.value host :: answers) (.combine .both :: rest)
    rw [behind] at ahead
    simpa [steps, released, pending, run, value] using ahead
  | only operand ih => exact ih answers rest
  | either left right leftIh rightIh =>
    have ahead := leftIh answers (right.steps ++ .combine .either :: rest)
    have behind := rightIh (left.value host :: answers) (.combine .either :: rest)
    rw [behind] at ahead
    simpa [steps, released, pending, run, value] using ahead

/-- The value of a guard that a formula stands for is the value of the formula. -/
theorem value?_tokens (formula : Formula .disjunction) (host : Host) :
    value? formula.tokens host = .ok (formula.value host) := by
  have ran := formula.run_steps host [] []
  rw [List.append_nil] at ran
  simp only [value?, reversePolish_tokens]
  exact ran

/-- A guard that a formula stands for has nothing to report. -/
theorem evaluate_tokens (formula : Formula .disjunction) (host : Host) :
    evaluate formula.tokens host = (formula.value host, []) := by
  simp only [evaluate, value?_tokens]

end Formula

end FormPatch.Guard
