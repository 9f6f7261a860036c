import FormPatch.Proofs.Guard.Malformation
import Mathlib.Data.List.Perm.Basic

/-!
# Conversion

Converting a list of tokens to reverse Polish order fails on parentheses alone. Of what waits only
the number of open groups decides whether the rest of a list is converted, so the conversion is
followed by a count of them, and the count is compared with the parentheses in front of each token.

Main statement: a list of tokens has a reverse Polish order exactly when its parentheses balance,
and then the order rearranges its calls and operators without disturbing the calls; the order of a
formula's tokens lists the formula in post-order.
-/

namespace FormPatch.Guard

/-- No parenthesis closes a group that is not open, where some groups are open in front of the
tokens. -/
def ClosesWithin (opened : Nat) (guard : Guard) : Prop :=
  ∀ front, front <+: guard → front.count .closing ≤ opened + front.count .opening

/-- Parentheses balance when each of them that closes a group finds one open, and no group stays
open. -/
structure IsBalanced (guard : Guard) : Prop where
  /-- No front of the list closes more groups than it opens. -/
  within : ClosesWithin 0 guard
  /-- The list closes as many groups as it opens. -/
  whole : guard.count .closing = guard.count .opening

/-- How many groups are open behind tokens, unless one of them closes a group that is not open. -/
def openBehind : Nat → Guard → Option Nat
  | opened, [] => some opened
  | opened, .call _ :: rest => openBehind opened rest
  | opened, .operator _ :: rest => openBehind opened rest
  | opened, .opening :: rest => openBehind (opened + 1) rest
  | 0, .closing :: _ => none
  | opened + 1, .closing :: rest => openBehind opened rest

/-- That a conversion succeeded, or its complaint. -/
def outcome (result : Except Malformed (List Step)) : Except Malformed Unit :=
  result.map fun _ => ()

/-- What a conversion comes to, by how many groups are open at its end. -/
def verdict : Option Nat → Except Malformed Unit
  | none => .error .closesNothing
  | some 0 => .ok ()
  | some (_ + 1) => .error .notClosed

/-- Changing the steps changes nothing about whether there are any. -/
theorem outcome_map (change : List Step → List Step) (result : Except Malformed (List Step)) :
    outcome (result.map change) = outcome result := by
  cases result <;> rfl

/-- A conversion that succeeded has steps. -/
theorem outcome_eq_ok {result : Except Malformed (List Step)} :
    outcome result = .ok () ↔ ∃ steps, result = .ok steps := by
  cases result <;> simp [outcome, Except.map]

/-- The end of a list is no complaint exactly when no group waits. -/
theorem outcome_releaseAll (waiting : List Waiting) :
    outcome (releaseAll waiting) = verdict (some (openGroups waiting)) := by
  induction waiting with
  | nil => rfl
  | cons top rest ih =>
    cases top with
    | group => simp [releaseAll, openGroups, verdict, outcome, Except.map]
    | operator top => simpa [releaseAll, outcome_map, openGroups] using ih

/-- A parenthesis that closes nothing finds no group waiting. -/
theorem openGroups_of_closeGroup_eq_none {waiting : List Waiting}
    (missing : closeGroup waiting = none) : openGroups waiting = 0 := by
  induction waiting with
  | nil => rfl
  | cons top rest ih =>
    cases top with
    | group => simp [closeGroup] at missing
    | operator top => simpa [openGroups] using ih (by simpa [closeGroup] using missing)

/-- What converting the rest of a list comes to depends on the groups that wait alone. -/
theorem outcome_stepsFrom (waiting : List Waiting) (rest : Guard) :
    outcome (stepsFrom waiting rest) = verdict (openBehind (openGroups waiting) rest) := by
  induction rest generalizing waiting with
  | nil => exact outcome_releaseAll waiting
  | cons token rest ih =>
    cases token with
    | call asked => simpa only [stepsFrom, outcome_map, openBehind] using ih waiting
    | operator next =>
      have behind := ih (.operator next :: (release next waiting).2)
      have kept : openGroups (.operator next :: (release next waiting).2) = openGroups waiting := by
        rw [← openGroups_release next waiting]
        simp [openGroups]
      rw [kept] at behind
      simpa only [stepsFrom, outcome_map, openBehind] using behind
    | opening =>
      have deeper : openGroups (.group :: waiting) = openGroups waiting + 1 := by
        simp [openGroups]
      rw [stepsFrom, ih, deeper, openBehind]
    | closing =>
      cases closed : closeGroup waiting with
      | none =>
        rw [openGroups_of_closeGroup_eq_none closed]
        simp [stepsFrom, closed, openBehind, verdict, outcome, Except.map]
      | some result =>
        obtain ⟨released, kept⟩ := result
        rw [openGroups_closeGroup closed, openBehind, ← ih kept]
        simp only [stepsFrom, closed, outcome_map]

/-- What a conversion comes to is known from the groups that are open behind the list. -/
theorem outcome_reversePolish (guard : Guard) :
    outcome guard.reversePolish = verdict (openBehind 0 guard) :=
  outcome_stepsFrom [] guard

/-- What holds of all fronts of a list holds of the empty one and of those that its head begins. -/
theorem forall_prefix_cons {token : GuardToken} {rest : Guard} {holds : Guard → Prop} :
    (∀ front, front <+: token :: rest → holds front) ↔
      holds [] ∧ ∀ front, front <+: rest → holds (token :: front) := by
  constructor
  · intro all
    exact ⟨all [] List.nil_prefix,
      fun front ahead => all (token :: front) (List.cons_prefix_cons.2 ⟨rfl, ahead⟩)⟩
  · rintro ⟨empty, longer⟩ front ahead
    rcases List.prefix_cons_iff.1 ahead with rfl | ⟨behind, rfl, inside⟩
    · exact empty
    · exact longer behind inside

/-- A token that is no parenthesis leaves the open groups as they are. -/
theorem closesWithin_cons {opened : Nat} {token : GuardToken} {rest : Guard}
    (closes : token ≠ .closing) (opens : token ≠ .opening) :
    ClosesWithin opened (token :: rest) ↔ ClosesWithin opened rest := by
  simp [ClosesWithin, forall_prefix_cons, closes, opens]

/-- A parenthesis that opens a group leaves one more that may be closed. -/
theorem closesWithin_opening {opened : Nat} {rest : Guard} :
    ClosesWithin opened (.opening :: rest) ↔ ClosesWithin (opened + 1) rest := by
  simp [ClosesWithin, forall_prefix_cons, Nat.add_assoc, Nat.add_comm 1]

/-- A parenthesis that closes an open group leaves one fewer. -/
theorem closesWithin_closing {opened : Nat} {rest : Guard} :
    ClosesWithin (opened + 1) (.closing :: rest) ↔ ClosesWithin opened rest := by
  simp [ClosesWithin, forall_prefix_cons, Nat.add_right_comm opened 1]

/-- A parenthesis may not close a group where none is open. -/
theorem not_closesWithin_closing {rest : Guard} : ¬ ClosesWithin 0 (.closing :: rest) := by
  intro within
  have first := within [.closing] (by simp)
  simp at first

/-- The groups open behind tokens are those that were open or opened and are not closed. -/
theorem openBehind_eq_some {opened left : Nat} {guard : Guard} :
    openBehind opened guard = some left ↔ ClosesWithin opened guard ∧
      left + guard.count .closing = opened + guard.count .opening := by
  fun_induction openBehind opened guard with
  | case1 opened => simp [ClosesWithin, eq_comm]
  | case2 opened asked rest ih => simp [ih, closesWithin_cons]
  | case3 opened next rest ih => simp [ih, closesWithin_cons]
  | case4 opened rest ih => simp [ih, closesWithin_opening, Nat.add_assoc, Nat.add_comm 1]
  | case5 rest => simp [not_closesWithin_closing]
  | case6 opened rest ih =>
    simp [ih, closesWithin_closing, ← Nat.add_assoc, Nat.add_right_comm opened 1]

/-- Parentheses balance exactly when none closes a group that is not open and none is left open. -/
theorem isBalanced_iff {guard : Guard} : IsBalanced guard ↔ openBehind 0 guard = some 0 := by
  rw [openBehind_eq_some, Nat.zero_add, Nat.zero_add]
  constructor
  · rintro ⟨within, whole⟩
    exact ⟨within, whole⟩
  · rintro ⟨within, whole⟩
    exact ⟨within, whole⟩

/-- A list of tokens has a reverse Polish order exactly when its parentheses balance. -/
theorem reversePolish_isOk (guard : Guard) :
    (∃ steps, guard.reversePolish = .ok steps) ↔ IsBalanced guard := by
  rw [← outcome_eq_ok, outcome_reversePolish, isBalanced_iff]
  rcases openBehind 0 guard with _ | _ | left <;> simp [verdict]

/-- Steps rearrange a list of tokens when they are its calls and operators, each as often as it
stands there, with the calls in their written order. -/
structure Rearranges (steps : List Step) (guard : Guard) : Prop where
  /-- Every call and every operator is one step, and there are no other steps. -/
  each : steps.Perm (guard.filterMap stepOf?)
  /-- The questions are asked in the order in which they are written. -/
  asks : steps.filter Step.isAsk = (guard.filterMap stepOf?).filter Step.isAsk

/-- Waiting operators ask nothing. -/
theorem filter_isAsk_combine (operators : List Operator) :
    (operators.map Step.combine).filter Step.isAsk = [] := by
  simp [List.filter_eq_nil_iff, Step.isAsk]

/-- When the last token of a draft has been read its questions are out in their written order. -/
theorem Draft.filter_released {tier : Tier} (draft : Draft tier) :
    draft.released.filter Step.isAsk = (draft.tokens.filterMap stepOf?).filter Step.isAsk := by
  induction draft with
  | start => rfl
  | call front asked ih => simp [released, tokens, ih, stepOf?]
  | group front inside frontIh insideIh =>
    simp [released, tokens, frontIh, insideIh, List.filterMap_cons, stepOf?, filter_isAsk_combine]
  | negation front ih => simp [released, tokens, ih, stepOf?, Step.isAsk]
  | first run ih => exact ih
  | both left right leftIh rightIh =>
    simp [released, tokens, leftIh, rightIh, stepOf?, filter_isAsk_combine, Step.isAsk]
  | only link ih => exact ih
  | either left right leftIh rightIh =>
    simp [released, tokens, leftIh, rightIh, stepOf?, filter_isAsk_combine, Step.isAsk]

/-- The steps of a draft rearrange its tokens. -/
theorem Draft.rearranges {tier : Tier} (draft : Draft tier) :
    Rearranges draft.steps draft.tokens where
  each := by
    refine List.perm_iff_count.2 fun step => ?_
    have marked : ∀ token ∈ draft.tokens,
        (stepOf? token).any (· == step) ↔ ((stepOf? token).map (· == step)).getD false := by
      intro token _
      cases stepOf? token <;> simp
    calc
      draft.steps.count step
          = draft.tokens.countP fun token => (stepOf? token).any (· == step) :=
        draft.countP_steps (· == step)
      _ = (draft.tokens.filterMap stepOf?).count step := by
        rw [List.count_eq_countP, List.countP_filterMap, List.countP_congr marked]
  asks := by
    rw [steps, List.filter_append, filter_isAsk_combine, List.append_nil, draft.filter_released]

namespace Formula

/-- A formula in post-order: what an operator combines, from left to right, and then the
operator. -/
def postOrder {tier : Tier} : Formula tier → List Step
  | call asked => [.ask asked]
  | group inside => inside.postOrder
  | plain operand => operand.postOrder
  | negation operand => operand.postOrder ++ [.combine .negate]
  | first operand => operand.postOrder
  | both left right => left.postOrder ++ right.postOrder ++ [.combine .both]
  | only operand => operand.postOrder
  | either left right => left.postOrder ++ right.postOrder ++ [.combine .either]

/-- The steps of a formula are out in post-order. -/
theorem steps_eq_postOrder {tier : Tier} (formula : Formula tier) :
    formula.steps = formula.postOrder := by
  induction formula with
  | call asked => rfl
  | group inside ih => simpa [steps, released, pending, postOrder] using ih
  | plain operand ih => exact ih
  | negation operand ih => simp [steps, released, pending, postOrder, ← ih]
  | first operand ih => exact ih
  | both left right leftIh rightIh =>
    simp [steps, released, pending, postOrder, ← leftIh, ← rightIh]
  | only operand ih => exact ih
  | either left right leftIh rightIh =>
    simp [steps, released, pending, postOrder, ← leftIh, ← rightIh]

end Formula

/-- Converting a list of tokens succeeds exactly when its parentheses balance, and then gives each
of its calls and operators once, the calls in their written order, and nothing else; converting the
tokens of a formula lists the formula in post-order. -/
theorem conversion_of_guards (guard : Guard) :
    ((∃ steps, guard.reversePolish = .ok steps) ↔ IsBalanced guard) ∧
    (∀ steps, guard.reversePolish = .ok steps → Rearranges steps guard) ∧
    ∀ formula : Formula .disjunction, formula.tokens = guard →
      guard.reversePolish = .ok formula.postOrder := by
  refine ⟨reversePolish_isOk guard, ?_, ?_⟩
  · intro steps converted
    obtain ⟨draft, rfl, rfl⟩ := reversePolish_eq_ok.1 converted
    exact draft.rearranges
  · rintro formula rfl
    rw [formula.reversePolish_tokens, formula.steps_eq_postOrder]

/-- Equal operators group to the left. -/
example (first second third : Call) :
    reversePolish [.call first, .operator .both, .call second, .operator .both, .call third] =
      .ok [.ask first, .ask second, .combine .both, .ask third, .combine .both] := by
  rfl

end FormPatch.Guard
