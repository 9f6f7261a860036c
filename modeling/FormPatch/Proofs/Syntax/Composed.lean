import FormPatch.Proofs.Syntax.Branches
import FormPatch.Proofs.Syntax.Places

/-!
# Composed readers

Readers of expressions are composed of five steps, by putting them in a row and by reading an item
behind each of some marks. What the steps have and both compositions keep, every composed reader
has. Main statements: composed readers stream, and they ignore the places of tokens.
-/

namespace FormPatch.Syntax.Reader

variable {α β : Type}

/-- A reader that is composed of steps which answer, fail, take a word or look at one. -/
inductive Composed : {α : Type} → Reader α → Prop
  /-- Answers a value. -/
  | answers {α : Type} (value : α) : Composed (pure value)
  /-- Reports a fault. -/
  | fails {α : Type} (fault : Fault) : Composed (fail fault : Reader α)
  /-- Takes the next word. -/
  | takes : Composed next
  /-- Looks at the next word. -/
  | looks : Composed peek
  /-- Readers in a row. -/
  | bind {α β : Type} {reader : Reader α} {use : α → Reader β} (first : Composed reader)
    (second : ∀ value, Composed (use value)) : Composed (reader >>= use)
  /-- An item behind each mark. -/
  | afterEach {α : Type} {item : Reader α} (mark : String) (named : mark ≠ "")
    (items : Composed item) : Composed (afterEach mark named item)

section Laws

variable {mark : String} {named : mark ≠ ""} {item : Reader α}

/-- Items behind marks stream when the item does. -/
theorem streams_afterEach (streams : item.Streams) : (afterEach mark named item).Streams := by
  intro cursor
  induction measured : cursor.rest.length using Nat.strongRecOn generalizing cursor with
  | ind length ih =>
    by_cases ended : cursor.rest = []
    · exact streamsAt_end _ ended
    · intro later
      have same := Cursor.word_extend ended later
      by_cases here : cursor.word = mark
      · rw [run_afterEach_of_word here, run_afterEach_of_word (by rwa [same]),
          Cursor.take_extend ended]
        refine (streams cursor.take).bind ?_ later
        intro value after ran
        have shorter : after.rest.length < length := measured ▸ length_lt_of_take ended ran
        exact (ih _ shorter after rfl).bind fun others _ _ => streams_pure (value :: others) _
      · left
        rw [run_afterEach_of_ne here, run_afterEach_of_ne (by rwa [same]),
          Cursor.look_extend ended]
        rfl

/-- Items behind marks ignore places when the item does. -/
theorem ignoresPlaces_afterEach (ignores : item.IgnoresPlaces) :
    (afterEach mark named item).IgnoresPlaces := by
  intro left
  induction measured : left.rest.length using Nat.strongRecOn generalizing left with
  | ind length ih =>
    intro right words
    have same := Cursor.word_congr words
    by_cases here : left.word = mark
    · have more := Cursor.rest_ne_nil_of_word named here
      rw [run_afterEach_of_word here, run_afterEach_of_word (same ▸ here)]
      refine alike_bind (ignores _ _ (Cursor.words_take_congr words)) ?_
      intro value after after' ran words
      have shorter : after.rest.length < length := measured ▸ length_lt_of_take more ran
      exact alike_bind (ih _ shorter after rfl after' words)
        fun others place place' _ words => ignoresPlaces_pure (value :: others) _ _ words
    · rw [run_afterEach_of_ne here, run_afterEach_of_ne (same ▸ here)]
      exact .read (Cursor.words_look_congr words)

end Laws

namespace Composed

/-- Composed readers stream. -/
theorem streams {reader : Reader α} (composed : reader.Composed) : reader.Streams := by
  induction composed with
  | answers value => exact streams_pure value
  | fails fault => exact streams_fail fault
  | takes => exact streams_next
  | looks => exact streams_peek
  | bind _ _ first second => exact first.bind second
  | afterEach mark named _ item => exact streams_afterEach item

/-- Composed readers ignore the places of tokens. -/
theorem ignoresPlaces {reader : Reader α} (composed : reader.Composed) : reader.IgnoresPlaces := by
  induction composed with
  | answers value => exact ignoresPlaces_pure value
  | fails fault => exact ignoresPlaces_fail fault
  | takes => exact ignoresPlaces_next
  | looks => exact ignoresPlaces_peek
  | bind _ _ first second => exact first.bind second
  | afterEach mark named _ item => exact ignoresPlaces_afterEach item

end Composed

section Readers

/-- A required condition is composed of steps. -/
theorem composed_require (condition : Bool) (fault : Fault) :
    (require condition fault).Composed := by
  cases condition with
  | false => exact .fails fault
  | true => exact .answers ()

/-- An expected word is composed of steps. -/
theorem composed_expect (mark : String) : (expect mark).Composed := by
  refine .bind .takes fun found => ?_
  split
  · exact .answers ()
  · exact .fails _

/-- An accepted word is composed of steps. -/
theorem composed_accept (mark : String) : (accept mark).Composed := by
  refine .bind .looks fun found => ?_
  split
  · exact .bind .takes fun _ => .answers true
  · exact .answers false

/-- The reader of strings is composed of steps. -/
theorem composed_string : string.Composed := by
  refine .bind .takes fun found => ?_
  cases Token.unquote? found with
  | none => exact .fails _
  | some text => exact .answers text

/-- The reader of forms is composed of steps. -/
theorem composed_form : form.Composed :=
  composed_string.bind fun _ => (composed_require _ _).bind fun _ =>
    (composed_expect "|").bind fun _ => .bind .takes fun _ =>
      (composed_require _ _).bind fun _ => .answers _

/-- The reader of numbers is composed of steps. -/
theorem composed_number : number.Composed := by
  refine .bind .takes fun whole => (composed_require _ _).bind fun _ => ?_
  refine (composed_accept ".").bind fun found => ?_
  cases found with
  | true => exact .bind .takes fun _ => (composed_require _ _).bind fun _ => .answers _
  | false => exact .answers _

/-- The reader of integers is composed of steps. -/
theorem composed_integer : integer.Composed := by
  refine .bind .takes fun found => ?_
  split
  · split
    · exact .answers _
    · exact .fails _
  · exact .fails _

/-- The reader of slots is composed of steps. -/
theorem composed_slot : slot.Composed := by
  refine .bind .takes fun found => ?_
  split
  · split
    · exact .answers _
    · exact .fails _
  · exact .fails _

/-- The reader of arguments is composed of steps when that of the items is. -/
theorem composed_arguments {item : Reader α} (items : item.Composed) : (arguments item).Composed :=
  items.bind fun _ => (Composed.afterEach "," (by decide) items).bind fun _ =>
    (composed_expect ")").bind fun _ => .answers _

end Readers

end FormPatch.Syntax.Reader
