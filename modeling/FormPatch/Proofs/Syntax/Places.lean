import FormPatch.Proofs.Syntax.Values

/-!
# Readers and the places of tokens

Where the tokens of a text stand makes no difference to what a reader answers and how far it comes.
Only the place of a fault depends on it. Readers in a row keep this.
-/

namespace FormPatch.Syntax

variable {α β : Type}

/-- Outcomes that differ in places only: the same value or fault, with the same words left. -/
inductive Outcome.Alike : Outcome α → Outcome α → Prop
  /-- Both are the same value. -/
  | read {value : α} {left right : Cursor} (words : left.words = right.words) :
    Alike (.read value left) (.read value right)
  /-- Both are the same fault. -/
  | failed {fault : Fault} {here there : Position} {left right : Cursor}
    (words : left.words = right.words) :
    Alike (.failed ⟨fault, here⟩ left) (.failed ⟨fault, there⟩ right)

namespace Cursor

/-- The next word is the first of the words that are left. -/
theorem word_congr {left right : Cursor} (words : left.words = right.words) :
    left.word = right.word := by
  have first (cursor : Cursor) : cursor.word = cursor.words.head?.getD "" := by
    obtain ⟨rest, shown⟩ := cursor
    cases rest <;> rfl
  rw [first, first, words]

/-- Taking a token leaves equal words where there were equal ones. -/
theorem words_take_congr {left right : Cursor} (words : left.words = right.words) :
    left.take.words = right.take.words := by
  rw [words_take, words_take, words]

/-- Looking ahead leaves equal words where there were equal ones. -/
theorem words_look_congr {left right : Cursor} (words : left.words = right.words) :
    left.look.words = right.look.words := by
  rw [words_look, words_look, words]

end Cursor

namespace Reader

/-- Whether the places of tokens make no difference to a reader. -/
def IgnoresPlaces (reader : Reader α) : Prop :=
  ∀ left right : Cursor, left.words = right.words → (reader.run left).Alike (reader.run right)

/-- Readers in a row run alike when the second one does behind each value of the first. -/
theorem alike_bind {reader : Reader α} {next : α → Reader β} {left right : Cursor}
    (first : (reader.run left).Alike (reader.run right))
    (second : ∀ value after after', reader.run left = .read value after →
      after.words = after'.words → ((next value).run after).Alike ((next value).run after')) :
    ((reader >>= next).run left).Alike ((reader >>= next).run right) := by
  rw [run_bind, run_bind]
  generalize ran : reader.run left = outcome, reader.run right = other at first
  cases first with
  | read words => exact second _ _ _ ran words
  | failed words => exact .failed words

/-- Readers in a row ignore places when each does. -/
theorem IgnoresPlaces.bind {reader : Reader α} {next : α → Reader β}
    (first : reader.IgnoresPlaces) (second : ∀ value, (next value).IgnoresPlaces) :
    (reader >>= next).IgnoresPlaces :=
  fun left right words => alike_bind (first left right words)
    fun value after after' _ words => second value after after' words

/-- The places of tokens make no difference to an answer at once. -/
theorem ignoresPlaces_pure (value : α) : (pure value : Reader α).IgnoresPlaces :=
  fun _ _ words => .read words

/-- The places of tokens make no difference to a failure. -/
theorem ignoresPlaces_fail (fault : Fault) : (fail fault : Reader α).IgnoresPlaces :=
  fun _ _ words => .failed words

/-- The places of tokens make no difference to the next word. -/
theorem ignoresPlaces_next : next.IgnoresPlaces := by
  intro left right words
  simp only [next, Cursor.word_congr words]
  exact .read (Cursor.words_take_congr words)

/-- The places of tokens make no difference to looking at the next word. -/
theorem ignoresPlaces_peek : peek.IgnoresPlaces := by
  intro left right words
  simp only [peek, Cursor.word_congr words]
  exact .read (Cursor.words_look_congr words)

/-- The places of tokens make no difference to a required condition. -/
theorem ignoresPlaces_require (condition : Bool) (fault : Fault) :
    (require condition fault).IgnoresPlaces := by
  cases condition with
  | false => exact ignoresPlaces_fail fault
  | true => exact ignoresPlaces_pure ()

/-- The places of tokens make no difference to expecting a word. -/
theorem ignoresPlaces_expect (mark : String) : (expect mark).IgnoresPlaces := by
  refine ignoresPlaces_next.bind fun found => ?_
  split
  · exact ignoresPlaces_pure ()
  · exact ignoresPlaces_fail _

end Reader

end FormPatch.Syntax
