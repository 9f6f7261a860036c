import FormPatch.Proofs.Syntax.Branches

/-!
# Readers that mirror each other

A reader mirrors another one when both take the same tokens from everywhere and fail together, and
their values are related. Sequencing and branching keep the relation, so a reader that answers more
than another one is tied to it part by part.
-/

namespace FormPatch.Syntax

variable {α β γ δ : Type}

/-- Outcomes that fail alike or leave the same text behind related values. -/
inductive Outcome.Mirrors (related : α → β → Prop) : Outcome α → Outcome β → Prop
  /-- Both are values. -/
  | read {value : α} {other : β} {cursor : Cursor} (agree : related value other) :
    Mirrors related (.read value cursor) (.read other cursor)
  /-- Both are the same fault. -/
  | failed {error : Located} {cursor : Cursor} :
    Mirrors related (.failed error cursor) (.failed error cursor)

namespace Tolerant

/-- Whether the outcomes of two readers mirror each other from everywhere. -/
def Mirrors (related : α → β → Prop) (left : Tolerant α) (right : Tolerant β) : Prop :=
  ∀ cursor, (left.run cursor).outcome.Mirrors related (right.run cursor).outcome

/-- A reader mirrors itself. -/
theorem mirrors_refl (reader : Tolerant α) : reader.Mirrors Eq reader := by
  intro cursor
  cases (reader.run cursor).outcome with
  | read value after => exact .read rfl
  | failed error after => exact .failed

/-- Answers that are given at once mirror each other when their values are related. -/
theorem mirrors_pure {related : α → β → Prop} {value : α} {other : β}
    (agree : related value other) : (pure value : Tolerant α).Mirrors related (pure other) :=
  fun _ => .read agree

/-- Readers in a row mirror each other when those behind related values do, at one place. -/
theorem mirrors_bind_at {related : α → β → Prop} {goal : γ → δ → Prop} {left : Tolerant α}
    {right : Tolerant β} {next : α → Tolerant γ} {next' : β → Tolerant δ} {cursor : Cursor}
    (first : (left.run cursor).outcome.Mirrors related (right.run cursor).outcome)
    (second : ∀ faults value other after, left.run cursor = ⟨faults, .read value after⟩ →
      related value other →
        ((next value).run after).outcome.Mirrors goal ((next' other).run after).outcome) :
    ((left >>= next).run cursor).outcome.Mirrors goal ((right >>= next').run cursor).outcome := by
  rw [run_bind, run_bind]
  cases leftRan : left.run cursor with
  | mk faults outcome =>
    cases rightRan : right.run cursor with
    | mk faults' outcome' =>
      rw [leftRan, rightRan] at first
      cases first with
      | failed => exact .failed
      | read agree => exact second faults _ _ _ leftRan agree

/-- Readers in a row mirror each other when those behind related values do. -/
theorem Mirrors.bind {related : α → β → Prop} {goal : γ → δ → Prop} {left : Tolerant α}
    {right : Tolerant β} {next : α → Tolerant γ} {next' : β → Tolerant δ}
    (first : left.Mirrors related right)
    (second : ∀ value other, related value other → (next value).Mirrors goal (next' other)) :
    (left >>= next).Mirrors goal (right >>= next') :=
  fun cursor => mirrors_bind_at (first cursor)
    fun _ value other after _ agree => second value other agree after

/-- Behind the same reader, readers mirror each other when they do behind each of its values. -/
theorem mirrors_bind (reader : Tolerant α) {goal : γ → δ → Prop} {next : α → Tolerant γ}
    {next' : α → Tolerant δ} (second : ∀ value, (next value).Mirrors goal (next' value)) :
    (reader >>= next).Mirrors goal (reader >>= next') :=
  (mirrors_refl reader).bind fun value _ same => same ▸ second value

/-- Branches mirror each other when their items do. -/
theorem mirrors_branches {mark : String} {named : mark ≠ ""} {change : α → γ} {change' : β → δ}
    {item : Tolerant (α ⊕ β)} {item' : Tolerant (γ ⊕ δ)}
    (items : item.Mirrors (fun branch other => branch.map change change' = other) item') :
    (branches mark named item).Mirrors
      (fun found other => (found.1.map change, found.2.map change') = other)
      (branches mark named item') := by
  intro cursor
  induction measured : cursor.rest.length using Nat.strongRecOn generalizing cursor with
  | ind length ih =>
    by_cases here : cursor.word = mark
    · have more := Cursor.rest_ne_nil_of_word named here
      rw [run_branches_of_word here, run_branches_of_word here]
      refine mirrors_bind_at (items cursor.take) ?_
      intro faults branch other after ran agree
      subst agree
      cases branch with
      | inr last => exact .read rfl
      | inl value =>
        have shorter : after.rest.length < length := measured ▸ length_lt_of_take more ran
        refine mirrors_bind_at (ih _ shorter after rfl) ?_
        intro faults found other place ran agree
        subst agree
        exact .read rfl
    · rw [run_branches_of_ne here, run_branches_of_ne here]
      exact .read rfl

end Tolerant

end FormPatch.Syntax
