import FormPatch.Syntax.Tolerant
import FormPatch.Syntax.Value

/-!
# What a successful reader has read

A composed reader succeeds exactly when its parts do, one after the other. For the readers that
everything is composed of, success is a fact about the next words of the text and the cursor that
is left is known.
-/

namespace FormPatch.Syntax

namespace Reader

variable {α β : Type}

/-- Two readers in a row succeed when the first one does and the second one does behind it. -/
theorem bind_eq_read {reader : Reader α} {next : α → Reader β} {cursor after : Cursor}
    {value : β} :
    (reader >>= next).run cursor = .read value after ↔
      ∃ first middle, reader.run cursor = .read first middle ∧
        (next first).run middle = .read value after := by
  rw [run_bind]
  constructor
  · intro ran
    split at ran
    · next first middle head => exact ⟨first, middle, head, ran⟩
    · simp at ran
  · rintro ⟨first, middle, head, tail⟩
    simpa only [head] using tail

/-- Answering a value takes nothing. -/
theorem pure_eq_read {value found : α} {cursor after : Cursor} :
    (pure value : Reader α).run cursor = .read found after ↔ value = found ∧ cursor = after := by
  rw [run_pure, Outcome.read.injEq]

/-- A fault is no value. -/
theorem fail_ne_read {fault : Fault} {value : α} {cursor after : Cursor} :
    (fail fault : Reader α).run cursor ≠ .read value after := by
  simp [fail]

/-- Taking a token always succeeds. -/
theorem next_eq_read {found : String} {cursor after : Cursor} :
    next.run cursor = .read found after ↔ cursor.word = found ∧ cursor.take = after := by
  simp only [next, Outcome.read.injEq]

/-- A condition is met or reported. -/
theorem require_eq_read {condition : Bool} {fault : Fault} {cursor after : Cursor} {value : Unit} :
    (require condition fault).run cursor = .read value after ↔
      condition = true ∧ cursor = after := by
  cases condition with
  | false => simp [require, fail]
  | true => simp [require]

/-- A fixed word is met when it is the next one. -/
theorem expect_eq_read {mark : String} {cursor after : Cursor} {value : Unit} :
    (expect mark).run cursor = .read value after ↔ cursor.word = mark ∧ cursor.take = after := by
  by_cases found : cursor.word = mark
  · simp [expect, run_bind, next, found]
  · simp [expect, run_bind, next, found, fail]

/-- A fixed word is taken whether it is met or not. -/
theorem cursor_expect (mark : String) (cursor : Cursor) :
    ((expect mark).run cursor).cursor = cursor.take := by
  by_cases found : cursor.word = mark
  · simp [expect, run_bind, next, found]
  · simp [expect, run_bind, next, found, fail]

/-- A word that stands next is accepted. -/
theorem run_accept_of_word {mark : String} {cursor : Cursor} (here : cursor.word = mark) :
    (accept mark).run cursor = .read true cursor.take := by
  have taken : cursor.look.take = cursor.take := by
    obtain ⟨rest, shown⟩ := cursor
    cases rest <;> rfl
  simp [accept, run_bind, peek, next, here, taken]

/-- A word that does not stand next is left. -/
theorem run_accept_of_ne {mark : String} {cursor : Cursor} (other : cursor.word ≠ mark) :
    (accept mark).run cursor = .read false cursor.look := by
  simp [accept, run_bind, peek, other]

/-- A reader that answers nothing. -/
def Refuses (reader : Reader α) : Prop :=
  ∀ cursor value after, reader.run cursor ≠ .read value after

/-- A failure answers nothing. -/
theorem refuses_fail (fault : Fault) : (fail fault : Reader α).Refuses :=
  fun _ _ _ => fail_ne_read

/-- A condition that is not met answers nothing. -/
theorem refuses_require {condition : Bool} {fault : Fault} (wrong : condition = false) :
    (require condition fault).Refuses := by
  intro cursor value after ran
  obtain ⟨holds, _⟩ := require_eq_read.1 ran
  rw [wrong] at holds
  cases holds

/-- A reader answers nothing when the reader in front does not. -/
theorem Refuses.bind {reader : Reader α} (refuses : reader.Refuses) (next : α → Reader β) :
    (reader >>= next).Refuses := by
  intro cursor value after ran
  obtain ⟨first, middle, head, _⟩ := bind_eq_read.1 ran
  exact refuses cursor first middle head

/-- A reader answers nothing when no reader behind does. -/
theorem Refuses.after {next : α → Reader β} (refuses : ∀ value, (next value).Refuses)
    (reader : Reader α) : (reader >>= next).Refuses := by
  intro cursor value after ran
  obtain ⟨first, middle, _, tail⟩ := bind_eq_read.1 ran
  exact refuses first middle value after tail

end Reader

end FormPatch.Syntax
