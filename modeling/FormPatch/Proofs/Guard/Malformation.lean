import FormPatch.Proofs.Guard.Draft
import FormPatch.Proofs.Guard.Written

/-!
# Malformed guards

A list of tokens is not checked against a grammar when it is evaluated. Three things are found
out: that parentheses do not match, that an operator finds fewer answers than it combines, and
that not exactly one answer is left. Which lists pass depends on no host, only on how many answers
lie on the stack behind each step of a draft.

Main statement: a list is refused, with one critical report and the answer false, exactly when no
draft of it leaves one answer. Every formula leaves one, and so do some lists that no formula
stands for, in which an operand too many makes up for one that is missing, or in which negations
are misplaced.
-/

namespace FormPatch.Guard

/-- How many answers an operator combines. -/
def arity (operator : Operator) : Nat := if operator.isUnary then 1 else 2

/-- How many answers lie on the stack behind a step, unless it finds too few. -/
def Step.height : Step → Nat → Option Nat
  | .ask _, count => some (count + 1)
  | .combine operator, count =>
    if arity operator ≤ count then some (count - arity operator + 1) else none

/-- How many answers lie on the stack behind steps, unless one of them finds too few. -/
def height (count : Nat) : List Step → Option Nat
  | [] => some count
  | step :: rest => (step.height count).bind fun behind => height behind rest

/-- An operator that finds enough answers leaves one in their place. -/
theorem run_combine (host : Host) {answers : List Bool} {operator : Operator}
    (enough : arity operator ≤ answers.length) (rest : List Step) :
    ∃ kept : List Bool, kept.length = answers.length - arity operator + 1 ∧
      run host answers (.combine operator :: rest) = run host kept rest := by
  cases operator with
  | negate =>
    cases answers with
    | nil => simp [arity, Operator.isUnary] at enough
    | cons answer others =>
      exact ⟨(!answer) :: others, by simp [arity, Operator.isUnary], by rw [run]⟩
  | both =>
    rcases answers with _ | ⟨right, _ | ⟨left, others⟩⟩
    · simp [arity, Operator.isUnary] at enough
    · simp [arity, Operator.isUnary] at enough
    · exact ⟨(left && right) :: others, by simp [arity, Operator.isUnary], by rw [run]⟩
  | either =>
    rcases answers with _ | ⟨right, _ | ⟨left, others⟩⟩
    · simp [arity, Operator.isUnary] at enough
    · simp [arity, Operator.isUnary] at enough
    · exact ⟨(left || right) :: others, by simp [arity, Operator.isUnary], by rw [run]⟩

/-- An operator that finds too few answers ends the run. -/
theorem run_combine_short (host : Host) {answers : List Bool} {operator : Operator}
    (short : answers.length < arity operator) (rest : List Step) :
    run host answers (.combine operator :: rest) = .error .noOperand := by
  match operator, answers, short with
  | .negate, [], _ => rfl
  | .both, [], _ => rfl
  | .both, [_], _ => rfl
  | .either, [], _ => rfl
  | .either, [_], _ => rfl

/-- Running steps gives an answer exactly when they leave one, whatever the host. -/
theorem run_isOk (host : Host) (answers : List Bool) (steps : List Step) :
    (∃ value, run host answers steps = .ok value) ↔ height answers.length steps = some 1 := by
  induction steps generalizing answers with
  | nil =>
    match answers with
    | [] => simp [run, height]
    | [_] => simp [run, height]
    | _ :: _ :: _ => simp [run, height]
  | cons step rest ih =>
    cases step with
    | ask asked =>
      rw [run]
      exact ih (asked.answer host :: answers)
    | combine operator =>
      by_cases enough : arity operator ≤ answers.length
      · obtain ⟨kept, left, ran⟩ := run_combine host enough rest
        have behind := ih kept
        rw [left] at behind
        simpa [ran, height, Step.height, enough] using behind
      · have ran := run_combine_short host (Nat.lt_of_not_le enough) rest
        simp [ran, height, Step.height, enough]

/-- Whether a step asks the host. -/
def Step.isAsk : Step → Bool
  | .ask _ => true
  | .combine _ => false

/-- Whether a step combines two answers. -/
def Step.isBinary : Step → Bool
  | .ask _ => false
  | .combine operator => !operator.isUnary

/-- Every question adds an answer and every binary operator takes one away. -/
theorem height_balance {count left : Nat} {steps : List Step}
    (leaves : height count steps = some left) :
    left + steps.countP Step.isBinary = count + steps.countP Step.isAsk := by
  induction steps generalizing count with
  | nil =>
    obtain rfl : count = left := by simpa [height] using leaves
    simp
  | cons step rest ih =>
    obtain ⟨behind, first, later⟩ := Option.bind_eq_some_iff.1 leaves
    have balanced := ih later
    cases step with
    | ask asked =>
      obtain rfl : count + 1 = behind := by simpa [Step.height] using first
      simp only [List.countP_cons, Step.isAsk, Step.isBinary, Bool.false_eq_true, ↓reduceIte]
      omega
    | combine operator =>
      obtain ⟨enough, rfl⟩ : arity operator ≤ count ∧ count - arity operator + 1 = behind := by
        simpa [Step.height] using first
      -- A negation changes no count; a binary operator takes two answers and gives one.
      cases unary : operator.isUnary <;>
        simp only [List.countP_cons, Step.isAsk, Step.isBinary, arity, unary, Bool.false_eq_true,
          Bool.not_true, Bool.not_false, ↓reduceIte] at balanced enough ⊢ <;>
        omega

/-- The step that a token becomes; parentheses become none. -/
def stepOf? : GuardToken → Option Step
  | .call asked => some (.ask asked)
  | .operator operator => some (.combine operator)
  | .opening => none
  | .closing => none

/-- The steps of a draft are those of its tokens, counted by any mark. -/
theorem Draft.countP_steps {tier : Tier} (draft : Draft tier) (mark : Step → Bool) :
    draft.steps.countP mark = draft.tokens.countP fun token => (stepOf? token).any mark := by
  induction draft with
  | start => rfl
  | call front asked ih =>
    simp only [steps, released, pending, tokens, List.countP_append, List.countP_cons,
      List.countP_nil, stepOf?, Option.any_some] at ih ⊢
    omega
  | group front inside frontIh insideIh =>
    simp only [steps, released, pending, tokens, List.countP_append, List.countP_cons,
      List.countP_nil, stepOf?, Option.any_none, Bool.false_eq_true,
      ↓reduceIte] at frontIh insideIh ⊢
    omega
  | negation front ih =>
    simp only [steps, released, pending, tokens, List.countP_append, List.countP_cons,
      List.countP_nil, List.map_cons, stepOf?, Option.any_some] at ih ⊢
    omega
  | first run ih => exact ih
  | both left right leftIh rightIh =>
    simp only [steps, released, pending, tokens, List.countP_append, List.countP_cons,
      List.countP_nil, List.map_append, List.map_cons, List.map_nil, stepOf?,
      Option.any_some] at leftIh rightIh ⊢
    omega
  | only link ih => exact ih
  | either left right leftIh rightIh =>
    simp only [steps, released, pending, tokens, List.countP_append, List.countP_cons,
      List.countP_nil, List.map_append, List.map_cons, List.map_nil, stepOf?,
      Option.any_some] at leftIh rightIh ⊢
    omega

/-- A list of tokens that evaluation answers: a draft of it leaves one answer. -/
def IsAnswered (guard : Guard) : Prop :=
  ∃ draft : Draft .disjunction, draft.tokens = guard ∧ height 0 draft.steps = some 1

/-- How many calls a list of tokens holds. -/
def calls (guard : Guard) : Nat := guard.countP fun token => (stepOf? token).any Step.isAsk

/-- How many operators with two operands a list of tokens holds. -/
def binaries (guard : Guard) : Nat := guard.countP fun token => (stepOf? token).any Step.isBinary

/-- A list that is answered has one call more than operators between operands. -/
theorem IsAnswered.balance {guard : Guard} (answered : IsAnswered guard) :
    guard.calls = guard.binaries + 1 := by
  obtain ⟨draft, rfl, leaves⟩ := answered
  have balanced := height_balance leaves
  simp only [draft.countP_steps] at balanced
  unfold calls binaries
  omega

/-- A list of tokens has a value for a host exactly when it is answered. -/
theorem value?_isOk (guard : Guard) (host : Host) :
    (∃ value, guard.value? host = .ok value) ↔ IsAnswered guard := by
  cases converted : guard.reversePolish with
  | error malformed =>
    have refused : ¬ IsAnswered guard := by
      rintro ⟨draft, rfl, -⟩
      simp [draft.reversePolish_tokens] at converted
    simpa [value?, converted, Bind.bind, Except.bind] using refused
  | ok steps =>
    have ran : guard.value? host = run host [] steps := by simp only [value?, converted]; rfl
    have answers : (∃ value, run host [] steps = .ok value) ↔ height 0 steps = some 1 :=
      run_isOk host [] steps
    rw [ran, answers]
    constructor
    · intro leaves
      obtain ⟨draft, same, rfl⟩ := reversePolish_eq_ok.1 converted
      exact ⟨draft, same, leaves⟩
    · rintro ⟨draft, rfl, leaves⟩
      rw [draft.reversePolish_tokens, Except.ok.injEq] at converted
      rwa [← converted]

/-- A list of tokens is refused for a host when evaluating it fails, which is reported as critical
and counts as false. -/
def IsRefused (guard : Guard) (host : Host) : Prop :=
  ∃ malformed : Malformed, guard.value? host = .error malformed ∧
    guard.evaluate host = (false, [.ofFailure .critical (.inconsistent malformed.message) none])

/-- An answered list of tokens has a value and nothing to report. -/
theorem IsAnswered.evaluate {guard : Guard} (answered : IsAnswered guard) (host : Host) :
    ∃ value, guard.value? host = .ok value ∧ guard.evaluate host = (value, []) := by
  obtain ⟨value, found⟩ := (value?_isOk guard host).2 answered
  exact ⟨value, found, by simp only [Guard.evaluate, found]⟩

/-- A list of tokens is refused for a host exactly when it is not answered. -/
theorem isRefused_iff (guard : Guard) (host : Host) : IsRefused guard host ↔ ¬ IsAnswered guard := by
  rw [← value?_isOk guard host]
  constructor
  · rintro ⟨malformed, failed, -⟩ ⟨value, found⟩
    simp [failed] at found
  · intro missing
    cases failed : guard.value? host with
    | ok value => exact absurd ⟨value, failed⟩ missing
    | error malformed => exact ⟨malformed, failed, by simp only [Guard.evaluate, failed, report]⟩

/-- A host on which nothing is active. -/
def idle : Host := ⟨fun _ => false, fun _ => false⟩

/-- The guard of a formula is answered. -/
theorem IsFormula.isAnswered {guard : Guard} (formula : IsFormula guard) : IsAnswered guard := by
  obtain ⟨formula, rfl⟩ := formula
  exact (value?_isOk formula.tokens idle).1 ⟨_, formula.value?_tokens idle⟩

/-- Evaluating a list of tokens refuses it, with one critical report and the answer false, exactly
when no draft of it leaves one answer, and otherwise reports nothing. Every formula's guard is
answered, and every list without one call more than operators between operands is refused; the
lists that no formula stands for are refused exactly where an answered list is a formula's. -/
theorem malformation_of_guards (guard : Guard) :
    (∀ host, (IsRefused guard host ↔ ¬ IsAnswered guard) ∧ (IsAnswered guard →
      ∃ value, guard.value? host = .ok value ∧ guard.evaluate host = (value, []))) ∧
    (IsFormula guard → IsAnswered guard) ∧
    (guard.calls ≠ guard.binaries + 1 → ∀ host, IsRefused guard host) ∧
    ((¬ IsFormula guard → ∀ host, IsRefused guard host) ↔
      (IsAnswered guard → IsFormula guard)) := by
  refine ⟨fun host => ⟨isRefused_iff guard host, fun answered => answered.evaluate host⟩,
    IsFormula.isAnswered, ?_, ?_⟩
  · intro unbalanced host
    exact (isRefused_iff guard host).2 fun answered => unbalanced answered.balance
  · constructor
    · intro refuses answered
      by_cases derived : IsFormula guard
      · exact derived
      · exact absurd answered ((isRefused_iff guard idle).1 (refuses derived idle))
    · intro derives underived host
      exact (isRefused_iff guard host).2 fun answered => underived (derives answered)

/-- A call with a negation behind it, which no formula stands for. -/
def trailingNegation : Guard := [.call ⟨.isPluginExists, "A"⟩, .operator .negate]

/-- A negation behind a call is not found out. -/
theorem trailingNegation_is_answered :
    ¬ (¬ IsFormula trailingNegation → ∀ host, IsRefused trailingNegation host) := by
  intro refuses
  have underived : ¬ IsFormula trailingNegation := by
    rintro ⟨formula, same⟩
    have ends := formula.isComplete_tokens
    rw [same] at ends
    exact absurd ends (by decide)
  obtain ⟨malformed, failed, -⟩ := refuses underived idle
  have found : trailingNegation.value? idle = .ok (!idle.isActive "A") := by
    simp [trailingNegation, value?, reversePolish, stepsFrom, release, releaseAll, run, Call.answer,
      Bind.bind, Except.bind, Except.map]
  simp [found] at failed

end FormPatch.Guard
