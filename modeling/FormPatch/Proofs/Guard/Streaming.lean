import FormPatch.Guard.Reader
import FormPatch.Proofs.Syntax.Composed

/-!
# Guards in texts that go on

The reader of guards streams. A guard ends before a parenthesis that stays, so a guard that was
read is read again in a text that goes on.
-/

namespace FormPatch.Guard

open Syntax Syntax.Reader

/-- Reads the rest of a group, given the element before it. -/
def groupFrom (group : Reader Guard) (before : Option GuardToken) : Reader Guard :=
  ⟨runGroup group before, runGroup_suffix group before⟩

/-- At the end of a text, a group has no end. -/
theorem run_groupFrom_of_end {group : Reader Guard} {before : Option GuardToken} {cursor : Cursor}
    (ended : cursor.rest = []) :
    (groupFrom group before).run cursor = .failed ⟨.expected ")" "", cursor.shown⟩ cursor := by
  show runGroup group before cursor = _
  rw [runGroup, if_pos ended]

/-- A group ends before a closing parenthesis. -/
theorem run_groupFrom_of_closing {group : Reader Guard} {before : Option GuardToken}
    {cursor : Cursor} (closes : cursor.word = ")") :
    (groupFrom group before).run cursor = (readEnd before).run cursor.look := by
  have more := Cursor.rest_ne_nil_of_word (by decide) closes
  show runGroup group before cursor = _
  rw [runGroup, if_neg more, if_pos closes]

/-- Within a group, an element is read and then the rest of the group. -/
theorem run_groupFrom {group : Reader Guard} {before : Option GuardToken} {cursor : Cursor}
    (more : cursor.rest ≠ []) (inside : cursor.word ≠ ")") :
    (groupFrom group before).run cursor =
      (readElement group before cursor.word >>= fun tokens =>
        groupFrom group tokens.getLast? >>= fun others => pure (tokens ++ others)).run
          cursor.look := by
  show runGroup group before cursor = _
  rw [runGroup, if_neg more, if_neg inside, run_bind]
  split
  · next error after ran => rw [ran]
  · next tokens after ran =>
    simp only [ran, run_bind]
    cases rest : runGroup group tokens.getLast? after with
    | read others later => simp [groupFrom, rest, Outcome.map]
    | failed error later => simp [groupFrom, rest, Outcome.map]

/-- The reader of a call is put together from the readers of its parts. -/
theorem composed_readCall (question : Question) : (readCall question).Composed := by
  refine (composed_expect "(").bind fun _ => ?_
  cases question with
  | isPluginExists =>
    exact composed_string.bind fun _ => (composed_expect ")").bind fun _ => .answers _
  | isFormExists =>
    exact composed_form.bind fun _ => (composed_expect ")").bind fun _ => .answers _

/-- The reader of a binary operator is put together from the readers of its parts. -/
theorem composed_readBinary (mark : String) (operator : Operator) (before : Option GuardToken) :
    (readBinary mark operator before).Composed :=
  (composed_expect mark).bind fun _ => .bind .takes fun _ =>
    (composed_require _ _).bind fun _ => (composed_require _ _).bind fun _ => .answers _

/-- The reader of a negation is put together from the readers of its parts. -/
theorem composed_readNegation (before : Option GuardToken) : (readNegation before).Composed :=
  (composed_expect "!").bind fun _ => (composed_require _ _).bind fun _ =>
    (composed_require _ _).bind fun _ => .answers _

/-- The reader of a group's end is put together from the readers of its parts. -/
theorem composed_readEnd (before : Option GuardToken) : (readEnd before).Composed := by
  unfold readEnd
  split
  · exact .fails _
  · exact .fails _
  · exact .answers _

/-- The reader of an element streams when that of a group does. -/
theorem streams_readElement {group : Reader Guard} (nested : group.Streams)
    (before : Option GuardToken) (word : String) : (readElement group before word).Streams := by
  unfold readElement
  split
  · exact (streams_require _ _).bind fun _ => (streams_expect "(").bind fun _ =>
      nested.bind fun _ => (streams_expect ")").bind fun _ => streams_pure _
  · split
    · exact (composed_readBinary "&" .both before).streams
    · split
      · exact (composed_readBinary "|" .either before).streams
      · split
        · exact (composed_readNegation before).streams
        · cases Question.ofWord? word with
          | none => exact streams_fail _
          | some question =>
            exact (streams_require _ _).bind fun _ => (streams_expect _).bind fun _ =>
              (composed_readCall question).streams.bind fun _ => streams_pure _

/-- The rest of a group streams when the groups within it do. -/
theorem streams_groupFrom {group : Reader Guard} (nested : group.Streams)
    (before : Option GuardToken) : (groupFrom group before).Streams := by
  intro cursor
  induction before, cursor using runGroup.induct group with
  | case1 before cursor ended => exact streamsAt_end _ ended
  | case2 before cursor more closes =>
    intro later
    have closes' : (cursor.extend later).word = ")" := by rwa [Cursor.word_extend more]
    rw [run_groupFrom_of_closing closes, run_groupFrom_of_closing closes',
      Cursor.look_extend more]
    exact (composed_readEnd before).streams cursor.look later
  | case3 before cursor more inside error after ran =>
    intro later
    have longer : (cursor.extend later).rest ≠ [] := by simp [more]
    rw [run_groupFrom more inside, run_groupFrom longer (by rwa [Cursor.word_extend more]),
      Cursor.word_extend more, Cursor.look_extend more]
    refine ((streams_readElement nested before cursor.word) cursor.look).bind ?_ later
    intro tokens after' read
    rw [ran] at read
    cases read
  | case4 before cursor more inside tokens after ran _ ih =>
    intro later
    have longer : (cursor.extend later).rest ≠ [] := by simp [more]
    rw [run_groupFrom more inside, run_groupFrom longer (by rwa [Cursor.word_extend more]),
      Cursor.word_extend more, Cursor.look_extend more]
    refine ((streams_readElement nested before cursor.word) cursor.look).bind ?_ later
    intro found after' read
    rw [ran] at read
    cases read
    exact ih.bind fun others _ _ => streams_pure _ _

/-- However deep groups may lie, a group streams. -/
theorem streams_readGroup (room : Nat) : (readGroup room).Streams := by
  induction room with
  | zero => exact streams_groupFrom (streams_fail _) none
  | succ room ih => exact streams_groupFrom ih none

/-- The reader of guards streams. -/
theorem streams_read : read.Streams := streams_readGroup mostNesting

end FormPatch.Guard
