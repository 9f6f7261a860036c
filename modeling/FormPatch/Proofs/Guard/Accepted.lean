import FormPatch.Guard.Reader
import FormPatch.Proofs.Guard.Formula
import FormPatch.Proofs.Syntax.Success

/-!
# Guards that are read are formulas

The reader checks each element of a group against the one before it. What has been read of a
group is therefore either a disjunction, or a beginning that any unary makes one. Main statement:
every guard that the reader answers is the guard of a formula, so it has a value for every host
and never anything to report.
-/

namespace FormPatch.Guard

open Syntax Syntax.Reader

/-- Tokens that a disjunction stands for. -/
def IsFormula (tokens : Guard) : Prop := ∃ formula : Formula .disjunction, formula.tokens = tokens

/-- Tokens that become those of a disjunction once any unary is put behind them. -/
def AwaitsOperand (tokens : Guard) : Prop :=
  ∀ operand : Formula .unary, IsFormula (tokens ++ operand.tokens)

/-- Before the first element any unary may stand. -/
theorem awaitsOperand_nil : AwaitsOperand [] :=
  fun operand => ⟨.only (.first operand), rfl⟩

/-- Behind a disjunction and the operator of conjunctions any unary may stand. -/
theorem IsFormula.both {tokens : Guard} (complete : IsFormula tokens) :
    AwaitsOperand (tokens ++ [.operator .both]) := by
  obtain ⟨formula, rfl⟩ := complete
  intro operand
  -- The operand joins the last link, however many links there are.
  cases formula with
  | only link => exact ⟨.only (.both link operand), by simp [Formula.tokens]⟩
  | either left link => exact ⟨.either left (.both link operand), by simp [Formula.tokens]⟩

/-- Behind a disjunction and the operator of disjunctions any unary may stand. -/
theorem IsFormula.either {tokens : Guard} (complete : IsFormula tokens) :
    AwaitsOperand (tokens ++ [.operator .either]) := by
  obtain ⟨formula, rfl⟩ := complete
  intro operand
  exact ⟨.either formula (.first operand), by simp [Formula.tokens]⟩

/-- Where a unary may stand, so may a negation and a unary. -/
theorem AwaitsOperand.negate {tokens : Guard} (awaits : AwaitsOperand tokens) :
    AwaitsOperand (tokens ++ [.operator .negate]) := by
  intro operand
  simpa [Formula.tokens] using awaits (.negation operand)

/-- Where a unary may stand, an atom completes the disjunction. -/
theorem AwaitsOperand.atom {tokens : Guard} (awaits : AwaitsOperand tokens)
    (operand : Formula .atom) : IsFormula (tokens ++ operand.tokens) :=
  awaits (.plain operand)

/-- What the beginning of a group is, as its last element shows. -/
inductive Fits (tokens : Guard) : Prop where
  /-- Behind an operand the group may end. -/
  | complete (formula : IsFormula tokens) (shown : isComplete tokens.getLast? = true)
  /-- At the beginning and behind an operator an operand must follow. -/
  | awaits (operand : AwaitsOperand tokens)
      (shown : tokens.getLast? = none ∨ ∃ operator, tokens.getLast? = some (.operator operator))

/-- Where the last element completes no operand, one must follow. -/
theorem Fits.awaitsOperand {tokens : Guard} (fits : Fits tokens)
    (unfinished : isComplete tokens.getLast? = false) : AwaitsOperand tokens := by
  cases fits with
  | complete formula shown => simp [shown] at unfinished
  | awaits operand shown => exact operand

/-- Where the last element completes an operand, the group may end. -/
theorem Fits.isFormula {tokens : Guard} (fits : Fits tokens)
    (closed : isComplete tokens.getLast? = true) : IsFormula tokens := by
  cases fits with
  | complete formula shown => exact formula
  | awaits operand shown =>
    rcases shown with shown | ⟨operator, shown⟩
    · simp [shown, Guard.isComplete] at closed
    · simp [shown, Guard.isComplete, GuardToken.endsOperand] at closed

/-- A beginning behind which an operator has been put. -/
theorem Fits.operator {tokens : Guard} {operator : Operator}
    (awaits : AwaitsOperand (tokens ++ [.operator operator])) :
    Fits (tokens ++ [.operator operator]) :=
  .awaits awaits (.inr ⟨operator, by simp⟩)

/-- A binary operator that is read follows an operand. -/
theorem readBinary_eq_read {mark : String} {operator : Operator} {before : Option GuardToken}
    {cursor after : Cursor} {tokens : Guard}
    (ran : (readBinary mark operator before).run cursor = .read tokens after) :
    isComplete before = true ∧ tokens = [.operator operator] := by
  simp only [readBinary, bind_eq_read, require_eq_read, pure_eq_read] at ran
  obtain ⟨_, _, _, _, _, _, _, _, _, _, _, ⟨operand, _⟩, rfl, _⟩ := ran
  exact ⟨operand, rfl⟩

/-- A negation that is read follows no operand. -/
theorem readNegation_eq_read {before : Option GuardToken} {cursor after : Cursor} {tokens : Guard}
    (ran : (readNegation before).run cursor = .read tokens after) :
    isComplete before = false ∧ tokens = [.operator .negate] := by
  simp only [readNegation, bind_eq_read, require_eq_read, pure_eq_read, Bool.not_eq_true'] at ran
  obtain ⟨_, _, _, _, _, _, _, _, ⟨operand, _⟩, rfl, _⟩ := ran
  exact ⟨operand, rfl⟩

/-- An element that is read keeps the beginning of its group fitting. -/
theorem readElement_fits {group : Reader Guard}
    (nested : ∀ cursor inside after, group.run cursor = .read inside after → IsFormula inside)
    {sofar : Guard} (fits : Fits sofar) {word : String} {cursor after : Cursor} {tokens : Guard}
    (ran : (readElement group sofar.getLast? word).run cursor = .read tokens after) :
    tokens ≠ [] ∧ Fits (sofar ++ tokens) := by
  unfold readElement at ran
  split at ran
  · simp only [bind_eq_read, require_eq_read, pure_eq_read, Bool.not_eq_true'] at ran
    obtain ⟨_, _, ⟨position, _⟩, _, _, _, inside, _, inner, _, _, _, rfl, _⟩ := ran
    obtain ⟨formula, rfl⟩ := nested _ _ _ inner
    refine ⟨by simp, .complete ((fits.awaitsOperand position).atom (.group formula)) ?_⟩
    rw [List.getLast?_append, List.getLast?_concat]
    rfl
  · split at ran
    · obtain ⟨position, rfl⟩ := readBinary_eq_read ran
      exact ⟨by simp, .operator (fits.isFormula position).both⟩
    · split at ran
      · obtain ⟨position, rfl⟩ := readBinary_eq_read ran
        exact ⟨by simp, .operator (fits.isFormula position).either⟩
      · split at ran
        · obtain ⟨position, rfl⟩ := readNegation_eq_read ran
          exact ⟨by simp, .operator (fits.awaitsOperand position).negate⟩
        · split at ran
          · exact absurd ran fail_ne_read
          · simp only [bind_eq_read, require_eq_read, pure_eq_read, Bool.not_eq_true'] at ran
            obtain ⟨_, _, ⟨position, _⟩, _, _, _, call, _, _, rfl, _⟩ := ran
            refine ⟨by simp, .complete ((fits.awaitsOperand position).atom (.call call)) ?_⟩
            rw [List.getLast?_concat]
            rfl

/-- A group that may end is complete. -/
theorem readEnd_isFormula {sofar : Guard} (fits : Fits sofar) {cursor after : Cursor}
    {tokens : Guard} (ran : (readEnd sofar.getLast?).run cursor = .read tokens after) :
    IsFormula (sofar ++ tokens) := by
  cases fits with
  | complete formula shown =>
    unfold readEnd at ran
    split at ran
    · exact absurd ran fail_ne_read
    · exact absurd ran fail_ne_read
    · obtain ⟨rfl, _⟩ := pure_eq_read.1 ran
      simpa using formula
  | awaits operand shown =>
    rcases shown with shown | ⟨operator, shown⟩
    · rw [shown] at ran
      exact absurd ran fail_ne_read
    · rw [shown] at ran
      exact absurd ran fail_ne_read

/-- From a fitting beginning on, the rest of a group completes it. -/
theorem runGroup_isFormula {group : Reader Guard}
    (nested : ∀ cursor inside after, group.run cursor = .read inside after → IsFormula inside)
    (before : Option GuardToken) (cursor : Cursor) (sofar : Guard) (fits : Fits sofar)
    (last : before = sofar.getLast?) (tokens : Guard) (after : Cursor)
    (ran : runGroup group before cursor = .read tokens after) : IsFormula (sofar ++ tokens) := by
  fun_induction runGroup group before cursor generalizing sofar tokens after with
  | case1 before cursor empty => simp at ran
  | case2 before cursor more closes =>
    subst last
    exact readEnd_isFormula fits ran
  | case3 before cursor more inside error later element => simp at ran
  | case4 before cursor more inside element later read _ ih =>
    subst last
    obtain ⟨taken, kept⟩ := readElement_fits nested fits read
    obtain ⟨others, rest, same⟩ : ∃ others, runGroup group element.getLast? later =
        .read others after ∧ element ++ others = tokens := by
      cases inner : runGroup group element.getLast? later with
      | failed error stopped => simp [inner, Outcome.map] at ran
      | read others stopped =>
        rw [inner, Outcome.map, Outcome.read.injEq] at ran
        exact ⟨others, by rw [ran.2], ran.1⟩
    have shown : element.getLast? = (sofar ++ element).getLast? := by
      rw [List.getLast?_append, List.getLast?_eq_some_getLast taken]
      rfl
    have complete := ih (sofar ++ element) kept shown others after rest
    rwa [List.append_assoc, same] at complete

/-- Whatever room is left, a group that is read is complete. -/
theorem readGroup_isFormula (room : Nat) (cursor : Cursor) (guard : Guard) (after : Cursor)
    (ran : (readGroup room).run cursor = .read guard after) : IsFormula guard := by
  have start : Fits [] := .awaits awaitsOperand_nil (.inl rfl)
  induction room generalizing cursor guard after with
  | zero =>
    exact runGroup_isFormula (fun _ _ _ inner => absurd inner fail_ne_read) none cursor [] start
      rfl guard after ran
  | succ room ih => exact runGroup_isFormula ih none cursor [] start rfl guard after ran

/-- Every formula's guard has the value of the formula for every host, and every guard that is
read is a formula's guard, so evaluating it reports nothing. -/
theorem evaluation_of_derivations :
    (∀ (formula : Formula .disjunction) (host : Host),
      value? formula.tokens host = .ok (formula.value host)) ∧
    ∀ (cursor after : Cursor) (guard : Guard), read.run cursor = .read guard after →
      ∃ formula : Formula .disjunction, formula.tokens = guard ∧
        ∀ host, value? guard host = .ok (formula.value host) ∧
          guard.evaluate host = (formula.value host, []) := by
  refine ⟨Formula.value?_tokens, ?_⟩
  intro cursor after guard ran
  obtain ⟨formula, rfl⟩ := readGroup_isFormula mostNesting cursor guard after ran
  exact ⟨formula, rfl, fun host => ⟨formula.value?_tokens host, formula.evaluate_tokens host⟩⟩

end FormPatch.Guard
