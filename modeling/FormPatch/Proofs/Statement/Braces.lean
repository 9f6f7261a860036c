import FormPatch.Armor.Patch
import FormPatch.Keyword.Patch
import FormPatch.Proofs.Guard.Streaming
import FormPatch.Proofs.Syntax.Braces

/-!
# Braces in guards and expressions

Guards and the expressions of both record types keep braces: a brace where one of their words must
stand is a fault. So only the blocks of a statement that was read open and close braces.
-/

namespace FormPatch

open Syntax Syntax.Reader

/-- A grammar keeps braces when its expressions do. -/
def Grammar.KeepsBraces {α : Type} (grammar : Grammar α) : Prop := grammar.read.KeepsBraces

namespace Guard

/-- A call opens and closes the same braces. -/
theorem keepsBraces_readCall (question : Question) : (readCall question).KeepsBraces := by
  refine (keepsBraces_expect (by decide) (by decide)).bind fun _ => ?_
  cases question with
  | isPluginExists =>
    exact keepsBraces_string.bind fun _ =>
      (keepsBraces_expect (by decide) (by decide)).bind fun _ => keepsBraces_pure _
  | isFormExists =>
    exact keepsBraces_form.bind fun _ =>
      (keepsBraces_expect (by decide) (by decide)).bind fun _ => keepsBraces_pure _

/-- A binary operator that is no brace leaves the braces as they are. -/
theorem keepsBraces_readBinary {mark : String} (opens : mark ≠ "\x7b") (closes : mark ≠ "\x7d")
    (operator : Operator) (before : Option GuardToken) :
    (readBinary mark operator before).KeepsBraces := by
  refine (keepsBraces_expect opens closes).bind fun _ => ?_
  refine keepsBraces_next_bind (fun second => ?_) ?_ ?_
  · exact (keepsBraces_require _ _).bind fun _ => (keepsBraces_require _ _).bind fun _ =>
      keepsBraces_pure _
  · exact (refuses_require (decide_eq_false opens.symm)).bind _
  · exact (refuses_require (decide_eq_false closes.symm)).bind _

/-- A negation leaves the braces as they are. -/
theorem keepsBraces_readNegation (before : Option GuardToken) :
    (readNegation before).KeepsBraces :=
  (keepsBraces_expect (by decide) (by decide)).bind fun _ =>
    (keepsBraces_require _ _).bind fun _ => (keepsBraces_require _ _).bind fun _ =>
      keepsBraces_pure _

/-- An element of a group opens and closes the same braces when nested groups do. -/
theorem keepsBraces_readElement {group : Reader Guard} (nested : group.KeepsBraces)
    (before : Option GuardToken) (word : String) :
    (readElement group before word).KeepsBraces := by
  unfold readElement
  split
  · exact (keepsBraces_require _ _).bind fun _ =>
      (keepsBraces_expect (by decide) (by decide)).bind fun _ => nested.bind fun _ =>
        (keepsBraces_expect (by decide) (by decide)).bind fun _ => keepsBraces_pure _
  · split
    · exact keepsBraces_readBinary (by decide) (by decide) .both before
    · split
      · exact keepsBraces_readBinary (by decide) (by decide) .either before
      · split
        · exact keepsBraces_readNegation before
        · cases Question.ofWord? word with
          | none => exact (refuses_fail _).keepsBraces
          | some question =>
            have opens : question.word ≠ "\x7b" := by cases question <;> decide
            have closes : question.word ≠ "\x7d" := by cases question <;> decide
            exact (keepsBraces_require _ _).bind fun _ =>
              (keepsBraces_expect opens closes).bind fun _ =>
                (keepsBraces_readCall question).bind fun _ => keepsBraces_pure _

/-- The end of a group leaves the braces as they are. -/
theorem keepsBraces_readEnd (before : Option GuardToken) : (readEnd before).KeepsBraces := by
  unfold readEnd
  split
  · exact (refuses_fail _).keepsBraces
  · exact (refuses_fail _).keepsBraces
  · exact keepsBraces_pure _

/-- The rest of a group keeps braces when the groups within it do. -/
theorem keepsBraces_groupFrom {group : Reader Guard} (nested : group.KeepsBraces)
    (before : Option GuardToken) : (groupFrom group before).KeepsBraces := by
  intro cursor
  induction before, cursor using runGroup.induct group with
  | case1 before cursor ended =>
    intro value after ran
    rw [run_groupFrom_of_end ended] at ran
    cases ran
  | case2 before cursor more closes =>
    intro value after ran
    rw [run_groupFrom_of_closing closes] at ran
    rw [← Cursor.rest_look]
    exact keepsBraces_readEnd before cursor.look value after ran
  | case3 before cursor more inside error after ran =>
    intro value place found
    rw [run_groupFrom more inside] at found
    obtain ⟨tokens, middle, head, _⟩ := bind_eq_read.1 found
    rw [ran] at head
    cases head
  | case4 before cursor more inside tokens after ran _ ih =>
    intro value place found
    rw [run_groupFrom more inside] at found
    obtain ⟨first, middle, head, tail⟩ := bind_eq_read.1 found
    rw [ran] at head
    cases head
    obtain ⟨others, last, rest, done⟩ := bind_eq_read.1 tail
    obtain ⟨_, rfl⟩ := pure_eq_read.1 done
    have front := keepsBraces_readElement nested before cursor.word cursor.look tokens after ran
    rw [Cursor.rest_look] at front
    rw [front, ih others last rest]

/-- However deep groups may lie, a group keeps braces. -/
theorem keepsBraces_readGroup (room : Nat) : (readGroup room).KeepsBraces := by
  induction room with
  | zero => exact keepsBraces_groupFrom (refuses_fail _).keepsBraces none
  | succ room ih => exact keepsBraces_groupFrom ih none

/-- The reader of guards keeps braces. -/
theorem keepsBraces_read : read.KeepsBraces := keepsBraces_readGroup mostNesting

end Guard

namespace KeywordPatch

/-- The filter of an armor patch leaves the braces as they are. -/
theorem keepsBraces_readFilter (word : String) : (readFilter word).KeepsBraces := by
  unfold readFilter
  split
  · exact keepsBraces_form.bind fun _ => keepsBraces_pure _
  · split
    · exact keepsBraces_string.bind fun _ => keepsBraces_pure _
    · exact (refuses_fail _).keepsBraces

/-- The grammar of keyword patches keeps braces: a brace names no filter. -/
theorem keepsBraces_grammar : grammar.KeepsBraces := by
  refine keepsBraces_next_bind (fun word => ?_) ?_ ?_
  · refine (keepsBraces_expect (by decide) (by decide)).bind fun _ => ?_
    refine (keepsBraces_readFilter word).bind fun _ => ?_
    refine (keepsBraces_expect (by decide) (by decide)).bind fun _ => ?_
    refine (keepsBraces_expect (by decide) (by decide)).bind fun _ => ?_
    refine (keepsBraces_expect (by decide) (by decide)).bind fun _ => ?_
    refine (keepsBraces_expect (by decide) (by decide)).bind fun _ => ?_
    refine keepsBraces_string.bind fun _ => (keepsBraces_require _ _).bind fun _ => ?_
    exact (keepsBraces_expect (by decide) (by decide)).bind fun _ => keepsBraces_pure _
  · exact .after (fun _ => (refuses_fail _).bind _) _
  · exact .after (fun _ => (refuses_fail _).bind _) _

end KeywordPatch

namespace ArmorOperation

/-- A union of slots leaves the braces as they are. -/
theorem keepsBraces_readSlots : readSlots.KeepsBraces :=
  keepsBraces_slot.bind fun _ =>
    (keepsBraces_afterEach (by decide) (by decide) keepsBraces_slot).bind fun _ =>
      keepsBraces_pure _

/-- An edit of slots is named by a word that is no brace. -/
theorem keepsBraces_readSlotEdit : readSlotEdit.KeepsBraces := by
  refine keepsBraces_next_bind (fun word => ?_) ?_ ?_
  · refine (keepsBraces_expect (by decide) (by decide)).bind fun _ => ?_
    split
    · exact (keepsBraces_expect (by decide) (by decide)).bind fun _ => keepsBraces_pure _
    · split
      · exact (keepsBraces_arguments keepsBraces_slot).bind fun _ => keepsBraces_pure _
      · split
        · exact (keepsBraces_arguments keepsBraces_slot).bind fun _ => keepsBraces_pure _
        · exact (refuses_fail _).keepsBraces
  · exact .after (fun _ => refuses_fail _) _
  · exact .after (fun _ => refuses_fail _) _

/-- An edit of keywords is named by a word that is no brace. -/
theorem keepsBraces_readKeywordEdit : readKeywordEdit.KeepsBraces := by
  refine keepsBraces_next_bind (fun word => ?_) ?_ ?_
  · refine (keepsBraces_expect (by decide) (by decide)).bind fun _ => ?_
    split
    · exact (keepsBraces_expect (by decide) (by decide)).bind fun _ => keepsBraces_pure _
    · split
      · exact (keepsBraces_arguments keepsBraces_form).bind fun _ => keepsBraces_pure _
      · split
        · exact (keepsBraces_arguments keepsBraces_form).bind fun _ => keepsBraces_pure _
        · exact (refuses_fail _).keepsBraces
  · exact .after (fun _ => refuses_fail _) _
  · exact .after (fun _ => refuses_fail _) _

/-- Edits of a field leave the braces as they are when each of them does. -/
theorem keepsBraces_readEdits (field : ArmorField) {edit : Reader ArmorOperation}
    (keeps : edit.KeepsBraces) : (readEdits field edit).KeepsBraces := by
  refine (keepsBraces_afterEach (by decide) (by decide) keeps).bind fun edits => ?_
  split
  · exact (Refuses.after (fun _ => refuses_fail _) _).keepsBraces
  · exact keepsBraces_pure _

/-- Setting a field leaves the braces as they are when its value does. -/
theorem keepsBraces_readSet {α : Type} {value : Reader α} (keeps : value.KeepsBraces)
    (set : α → ArmorOperation) : (readSet value set).KeepsBraces :=
  (keepsBraces_expect (by decide) (by decide)).bind fun _ => keeps.bind fun _ =>
    keepsBraces_pure _

/-- The edits of every field keep braces. -/
theorem keepsBraces_read (field : ArmorField) : (read field).KeepsBraces := by
  cases field with
  | slots =>
    refine (keepsBraces_accept (by decide) (by decide)).bind fun found => ?_
    cases found with
    | true => exact keepsBraces_readSlots.bind fun _ => keepsBraces_pure _
    | false => exact keepsBraces_readEdits .slots keepsBraces_readSlotEdit
  | keywords => exact keepsBraces_readEdits .keywords keepsBraces_readKeywordEdit
  | fullName => exact keepsBraces_readSet keepsBraces_string setFullName
  | rating => exact keepsBraces_readSet keepsBraces_number setRating
  | weight => exact keepsBraces_readSet keepsBraces_number setWeight
  | value => exact keepsBraces_readSet keepsBraces_integer setValue

end ArmorOperation

namespace ArmorPatch

/-- The filter of a keyword patch leaves the braces as they are. -/
theorem keepsBraces_readFilter : readFilter.KeepsBraces := by
  refine keepsBraces_next_bind (fun word => ?_) (refuses_fail _) (refuses_fail _)
  cases filterOfWord? word with
  | none => exact (refuses_fail _).keepsBraces
  | some filter =>
    exact (keepsBraces_expect (by decide) (by decide)).bind fun _ => keepsBraces_form.bind fun _ =>
      (keepsBraces_expect (by decide) (by decide)).bind fun _ => keepsBraces_pure _

/-- The grammar of armor patches keeps braces: a brace names no field and no edit. -/
theorem keepsBraces_grammar : grammar.KeepsBraces := by
  refine keepsBraces_readFilter.bind fun filter => ?_
  refine (keepsBraces_expect (by decide) (by decide)).bind fun _ => ?_
  refine keepsBraces_next_bind (fun word => ?_) (refuses_fail _) (refuses_fail _)
  cases ArmorField.ofWord? word with
  | none => exact (refuses_fail _).keepsBraces
  | some field =>
    exact (ArmorOperation.keepsBraces_read field).bind fun _ =>
      (keepsBraces_expect (by decide) (by decide)).bind fun _ => keepsBraces_pure _

end ArmorPatch

end FormPatch
