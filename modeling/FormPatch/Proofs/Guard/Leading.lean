import FormPatch.Proofs.Guard.Streaming
import FormPatch.Proofs.Syntax.Leading

/-!
# Where the reader of guards comes to

The reader of guards does not leave steady places, and it reports promptly: a word that opens no
element of a guard is judged when it has just been looked at.
-/

namespace FormPatch.Guard

open Syntax Syntax.Reader

section Leading

variable {places : Cursor → Prop} [Cursor.Steady places] {ends : Located → Cursor → Prop}
  {group : Reader Guard}

/-- The reader of a call stays at places of a kind and finds its faults at places that suit them. -/
theorem leads_readCall (prompt : Prompt places ends) (question : Question) :
    (readCall question).Leads places (fun _ => places) ends := by
  refine (leads_expect prompt "(").bind fun _ => ?_
  cases question with
  | isPluginExists =>
    exact (leads_string prompt).bind fun _ => (leads_expect prompt ")").bind fun _ =>
      leads_pure fun _ => id
  | isFormExists =>
    exact (leads_form prompt).bind fun _ => (leads_expect prompt ")").bind fun _ =>
      leads_pure fun _ => id

/-- The reader of a binary operator stays at places of a kind and finds its faults at places that
suit them. -/
theorem leads_readBinary (prompt : Prompt places ends) (mark : String) (operator : Operator)
    (before : Option GuardToken) :
    (readBinary mark operator before).Leads places (fun _ => places) ends :=
  (leads_expect prompt mark).bind fun _ => leads_next.bind fun _ =>
    (leads_require_unnamed prompt rfl).bind fun _ => (leads_require_unnamed prompt rfl).bind fun _ =>
      leads_pure fun _ => id

/-- The reader of a negation stays at places of a kind and finds its faults at places that suit
them. -/
theorem leads_readNegation (prompt : Prompt places ends) (before : Option GuardToken) :
    (readNegation before).Leads places (fun _ => places) ends :=
  (leads_expect prompt "!").bind fun _ => (leads_require_unnamed prompt rfl).bind fun _ =>
    (leads_require_unnamed prompt rfl).bind fun _ => leads_pure fun _ => id

/-- An element is read at a word that was just looked at. -/
theorem suits_readElement (prompt : Prompt places ends)
    (nested : group.Leads places (fun _ => places) ends) (before : Option GuardToken)
    {cursor : Cursor} (held : places cursor) :
    ((readElement group before cursor.word).run cursor.look).Suits (fun _ => places) ends := by
  have looked : places cursor.look := Cursor.Steady.look held
  unfold readElement
  split
  · have element : (require (!isComplete before) .noOperator >>= fun _ => expect "(" >>= fun _ =>
        group >>= fun inside => expect ")" >>= fun _ =>
          pure (GuardToken.opening :: inside ++ [.closing])).Leads places (fun _ => places) ends :=
      (leads_require_unnamed prompt rfl).bind fun _ => (leads_expect prompt "(").bind fun _ =>
        nested.bind fun _ => (leads_expect prompt ")").bind fun _ => leads_pure fun _ => id
    exact element _ looked
  · split
    · exact leads_readBinary prompt "&" .both before _ looked
    · split
      · exact leads_readBinary prompt "|" .either before _ looked
      · split
        · exact leads_readNegation prompt before _ looked
        · split
          · exact prompt.looked held rfl rfl
          · next question _ =>
            have element : (require (!isComplete before) .noOperator >>= fun _ =>
                expect question.word >>= fun _ => readCall question >>= fun call =>
                  pure [GuardToken.call call]).Leads places (fun _ => places) ends :=
              (leads_require_unnamed prompt rfl).bind fun _ => (leads_expect prompt _).bind fun _ =>
                (leads_readCall prompt question).bind fun _ => leads_pure fun _ => id
            exact element _ looked

omit [Cursor.Steady places] in
/-- The reader of a group's end stays at places of a kind and finds its faults at places that suit
them. -/
theorem leads_readEnd (prompt : Prompt places ends) (before : Option GuardToken) :
    (readEnd before).Leads places (fun _ => places) ends := by
  unfold readEnd
  split
  · exact leads_fail fun _ held => prompt.unnamed held rfl
  · exact leads_fail fun _ held => prompt.unnamed held rfl
  · exact leads_pure fun _ => id

/-- The rest of a group does not leave steady places when the groups within it do not. -/
theorem leads_groupFrom (prompt : Prompt places ends)
    (nested : group.Leads places (fun _ => places) ends) (before : Option GuardToken) :
    (groupFrom group before).Leads places (fun _ => places) ends := by
  intro cursor
  induction measured : cursor.rest.length using Nat.strongRecOn generalizing before cursor with
  | ind length ih =>
    intro held
    by_cases ended : cursor.rest = []
    · -- At the end of a text, the word that was looked at is empty.
      have word : cursor.word = "" := by simp only [Cursor.word, ended]
      have same : cursor.look = cursor := by simp only [Cursor.look, ended]
      have spelled : (Fault.expected ")" "").named? = some cursor.word := congrArg some word.symm
      have missing := prompt.looked held spelled rfl
      rw [same] at missing
      rw [run_groupFrom_of_end ended]
      exact missing
    · by_cases closes : cursor.word = ")"
      · rw [run_groupFrom_of_closing closes]
        exact leads_readEnd prompt before _ (Cursor.Steady.look held)
      · have first := suits_readElement prompt nested before held
        rw [run_groupFrom ended closes, run_bind]
        cases ran : (readElement group before cursor.word).run cursor.look with
        | failed error after =>
          rw [ran] at first
          exact first
        | read tokens after =>
          rw [ran] at first
          have shorter : after.rest.length < length := by
            have taken := advances_readElement group before cursor.word cursor.look tokens after ran
            rwa [Cursor.rest_look, measured] at taken
          have others := ih _ shorter tokens.getLast? after rfl first
          simp only [run_bind]
          cases rest : (groupFrom group tokens.getLast?).run after with
          | failed error later =>
            rw [rest] at others
            exact others
          | read values later =>
            rw [rest] at others
            exact others

/-- However deep groups may lie, a group does not leave steady places. -/
theorem leads_readGroup (prompt : Prompt places ends) (room : Nat) :
    (readGroup room).Leads places (fun _ => places) ends := by
  induction room with
  | zero =>
    exact leads_groupFrom prompt (leads_fail fun _ held => prompt.unnamed held rfl) none
  | succ room ih => exact leads_groupFrom prompt ih none

/-- The reader of guards does not leave steady places. -/
theorem leads_read (prompt : Prompt places ends) : read.Leads places (fun _ => places) ends :=
  leads_readGroup prompt mostNesting

end Leading

end FormPatch.Guard
