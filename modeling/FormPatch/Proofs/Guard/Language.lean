import FormPatch.Proofs.Guard.Streaming
import FormPatch.Proofs.Syntax.Phrases

/-!
# The guards that are accepted

Words are accepted as a guard when the reader of guards, run on them and a closing parenthesis,
answers the guard and leaves the parenthesis. The reader sees neither the places of tokens nor what
follows the parenthesis, so it recognizes these words wherever a parenthesis closes them.
-/

namespace FormPatch.Guard

open Syntax Syntax.Reader

section Places

/-- The places of tokens make no difference to the reader of an element when they make none to that
of a group. -/
theorem ignoresPlaces_readElement {group : Reader Guard} (nested : group.IgnoresPlaces)
    (before : Option GuardToken) (word : String) :
    (readElement group before word).IgnoresPlaces := by
  unfold readElement
  split
  · exact (ignoresPlaces_require _ _).bind fun _ => (ignoresPlaces_expect "(").bind fun _ =>
      nested.bind fun _ => (ignoresPlaces_expect ")").bind fun _ => ignoresPlaces_pure _
  · split
    · exact (composed_readBinary "&" .both before).ignoresPlaces
    · split
      · exact (composed_readBinary "|" .either before).ignoresPlaces
      · split
        · exact (composed_readNegation before).ignoresPlaces
        · cases Question.ofWord? word with
          | none => exact ignoresPlaces_fail _
          | some question =>
            exact (ignoresPlaces_require _ _).bind fun _ => (ignoresPlaces_expect _).bind fun _ =>
              (composed_readCall question).ignoresPlaces.bind fun _ => ignoresPlaces_pure _

/-- The rest of a group ignores places when the groups within it do. -/
theorem ignoresPlaces_groupFrom {group : Reader Guard} (nested : group.IgnoresPlaces)
    (before : Option GuardToken) : (groupFrom group before).IgnoresPlaces := by
  intro left
  induction measured : left.rest.length using Nat.strongRecOn generalizing before left with
  | ind length ih =>
    intro right words
    by_cases ended : left.rest = []
    · have ended' : right.rest = [] := by rwa [Cursor.rest_eq_nil, ← words, ← Cursor.rest_eq_nil]
      rw [run_groupFrom_of_end ended, run_groupFrom_of_end ended']
      exact .failed words
    · have more : right.rest ≠ [] := by rwa [Ne, Cursor.rest_eq_nil, ← words, ← Cursor.rest_eq_nil]
      have looked := Cursor.words_look_congr words
      have same := Cursor.word_congr words
      by_cases closes : left.word = ")"
      · rw [run_groupFrom_of_closing closes, run_groupFrom_of_closing (same ▸ closes)]
        exact (composed_readEnd before).ignoresPlaces _ _ looked
      · rw [run_groupFrom ended closes, run_groupFrom more (same ▸ closes), ← same]
        refine alike_bind (ignoresPlaces_readElement nested before left.word _ _ looked) ?_
        intro tokens after after' ran words
        have shorter : after.rest.length < length := by
          have taken := advances_readElement group before left.word left.look tokens after ran
          rwa [Cursor.rest_look, measured] at taken
        exact alike_bind (ih _ shorter tokens.getLast? after rfl after' words)
          fun others place place' _ words => ignoresPlaces_pure _ _ _ words

/-- However deep groups may lie, a group ignores places. -/
theorem ignoresPlaces_readGroup (room : Nat) : (readGroup room).IgnoresPlaces := by
  induction room with
  | zero => exact ignoresPlaces_groupFrom (ignoresPlaces_fail _) none
  | succ room ih => exact ignoresPlaces_groupFrom ih none

/-- The reader of guards ignores places. -/
theorem ignoresPlaces_read : read.IgnoresPlaces := ignoresPlaces_readGroup mostNesting

end Places

/-- Whether words are accepted as a guard: the reader, run on the words and a parenthesis that
closes them, answers the guard and leaves the parenthesis. -/
def IsAccepted : Phrases Guard := fun words guard =>
  ∃ (tokens : List Token) (after : Cursor), tokens.map Token.text = words ++ [")"] ∧
    read.run (.ofTokens tokens) = .read guard after ∧ after.words = [")"]

/-- The reader answers a guard before a closing parenthesis exactly where it answers the guard in a
text that ends with that parenthesis. -/
theorem isAccepted_iff {cursor : Cursor} {guard : Guard} {words left : List String}
    (split : cursor.words = words ++ ")" :: left) :
    IsAccepted words guard ↔
      ∃ after, read.run cursor = .read guard after ∧ after.words = ")" :: left := by
  obtain ⟨front, behind, parts, spelled, others⟩ := List.map_eq_append_iff.1 split
  obtain ⟨closing, later, rfl, closes, rfl⟩ := List.map_eq_cons_iff.1 others
  have short : (Cursor.ofTokens (front ++ [closing])).words = words ++ [")"] := by
    simp [Cursor.words, Cursor.ofTokens, spelled, closes]
  have whole : ((Cursor.ofTokens (front ++ [closing])).extend later).words = cursor.words := by
    simp [Cursor.words, Cursor.ofTokens, parts]
  have alike := ignoresPlaces_read _ _ whole
  have streams := streams_read (.ofTokens (front ++ [closing]))
  constructor
  · rintro ⟨tokens, after, words', ran, left'⟩
    -- The accepted text and the front of this one differ in places only.
    have same : (Cursor.ofTokens tokens).words = (Cursor.ofTokens (front ++ [closing])).words :=
      words'.trans short.symm
    have first := ignoresPlaces_read _ _ same
    rw [ran] at first
    generalize ran' : read.run (.ofTokens (front ++ [closing])) = outcome at first
    cases first with
    | @read _ _ place kept =>
      have more : place.rest ≠ [] := by
        rw [Ne, Cursor.rest_eq_nil, ← kept, left']
        exact List.cons_ne_nil _ _
      rw [streams.run_extend (by rwa [ran']) later, ran'] at alike
      generalize ran'' : read.run cursor = outcome at alike
      cases alike with
      | @read _ _ last kept' =>
        refine ⟨last, rfl, ?_⟩
        rw [← kept', Cursor.words, Cursor.rest_extend, List.map_append]
        exact congrArg (· ++ _) (kept.symm.trans left')
  · rintro ⟨after, ran, left'⟩
    rw [ran] at alike
    generalize ran' : read.run ((Cursor.ofTokens (front ++ [closing])).extend later) = outcome
      at alike
    cases alike with
    | @read _ place _ kept =>
      -- What is left starts with the parenthesis, so the run has not come past the shorter text.
      have length : place.rest.length = later.length + 1 := by
        simpa [Cursor.words] using congrArg List.length (kept.trans left')
      rcases streams later with same | ⟨_, past⟩
      · generalize first : read.run (.ofTokens (front ++ [closing])) = outcome at same
        rw [ran'] at same
        cases outcome with
        | failed error last => cases same
        | read value last =>
          cases same
          refine ⟨front ++ [closing], last, short, first, ?_⟩
          have ends : last.words ++ later.map Token.text = [")"] ++ later.map Token.text := by
            simpa [Cursor.words] using kept.trans left'
          exact List.append_cancel_right ends
      · rw [ran', Outcome.cursor_read] at past
        have fewer := past.length_le
        omega

/-- Accepted words are recognized wherever a parenthesis closes them. -/
theorem recognizes_read : read.Recognizes (fun _ left => left.head? = some ")") IsAccepted := by
  intro cursor guard left closed
  obtain ⟨others, rfl⟩ := List.head?_eq_some_iff.1 closed
  constructor
  · rintro ⟨after, ran, stands⟩
    obtain ⟨front, whole⟩ := read.suffix cursor
    rw [ran, Outcome.cursor_read] at whole
    have split : cursor.words = front.map Token.text ++ ")" :: others := by
      rw [Cursor.words, ← whole, List.map_append]
      exact congrArg (front.map Token.text ++ ·) stands
    exact ⟨front.map Token.text, split, (isAccepted_iff split).2 ⟨after, ran, stands⟩⟩
  · rintro ⟨words, split, accepted⟩
    exact (isAccepted_iff split).1 accepted

end FormPatch.Guard
