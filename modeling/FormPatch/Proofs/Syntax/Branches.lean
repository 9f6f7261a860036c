import FormPatch.Proofs.Syntax.Streaming

/-!
# Branches in texts that go on

A run of branches ends before the first word that is not their mark. Reading the branches looks
at that word, so branches that were read hold in a text that goes on when it does not go on with
another branch.
-/

namespace FormPatch

open Syntax

/-- Whether a text starts with a word. -/
def StartsWith (word : String) (tokens : List Token) : Prop :=
  tokens.head?.map Token.text = some word

instance (word : String) (tokens : List Token) : Decidable (StartsWith word tokens) :=
  inferInstanceAs (Decidable (_ = _))

namespace Syntax

namespace Cursor

/-- A word that stands neither next nor at the start of what is added does not stand next. -/
theorem word_extend_ne {mark : String} {cursor : Cursor} {later : List Token} (named : mark ≠ "")
    (other : cursor.word ≠ mark) (apart : ¬StartsWith mark later) :
    (cursor.extend later).word ≠ mark := by
  obtain ⟨rest, shown⟩ := cursor
  cases rest with
  | cons token rest => exact other
  | nil =>
    cases later with
    | nil => exact named.symm
    | cons token later =>
      intro found
      exact apart (congrArg some found)

end Cursor

namespace Reader

variable {α : Type} {mark : String} {named : mark ≠ ""} {item : Reader α}

/-- Items behind a mark that stands next. -/
theorem run_afterEach_of_word {cursor : Cursor} (here : cursor.word = mark) :
    (afterEach mark named item).run cursor =
      (item >>= fun value => afterEach mark named item >>= fun others =>
        pure (value :: others)).run cursor.take := by
  have accepts := run_accept_of_word here
  show runAfterEach mark named item cursor = _
  rw [runAfterEach, run_bind]
  split
  · next error after accepted => simp [accepts] at accepted
  · next after accepted => simp [accepts] at accepted
  · next after accepted =>
    rw [accepts, Outcome.read.injEq] at accepted
    obtain ⟨_, rfl⟩ := accepted
    split
    · next error later ran => rw [ran]
    · next value later ran =>
      simp only [ran, run_bind]
      cases rest : runAfterEach mark named item later with
      | read others last => simp [afterEach, rest, Outcome.map]
      | failed error last => simp [afterEach, rest, Outcome.map]

/-- No items where another word stands next. -/
theorem run_afterEach_of_ne {cursor : Cursor} (other : cursor.word ≠ mark) :
    (afterEach mark named item).run cursor = .read [] cursor.look := by
  have left := run_accept_of_ne other
  show runAfterEach mark named item cursor = _
  rw [runAfterEach]
  split
  · next error after accepted => simp [left] at accepted
  · next after accepted =>
    rw [left, Outcome.read.injEq] at accepted
    obtain ⟨_, rfl⟩ := accepted
    rfl
  · next after accepted => simp [left] at accepted

end Reader

namespace Tolerant

variable {α β : Type}

/-- The branches behind a mark are read one after the other, up to one that is the last. -/
theorem run_branches (mark : String) (named : mark ≠ "") (item : Tolerant (α ⊕ β))
    (cursor : Cursor) :
    (branches mark named item).run cursor =
      (ofReader (Reader.accept mark) >>= fun found =>
        if found then
          item >>= fun branch =>
            match branch with
            | .inr last => pure ([], some last)
            | .inl value =>
              branches mark named item >>= fun others => pure (value :: others.1, others.2)
        else pure ([], none)).run cursor := by
  show runBranches mark named item cursor = _
  rw [runBranches, run_bind]
  simp only [ofReader]
  split
  · next error after ran => simp only [ran]
  · next after ran =>
    simp only [ran]
    rfl
  · next after ran =>
    simp only [ran, ↓reduceIte, run_bind]
    split
    · next faults error later inner => simp only [inner]; rfl
    · next faults last later inner =>
      simp only [inner]
      simp [Passage.behind, pure, ofReader, Reader.answer]
    · next faults value later inner =>
      simp only [inner, run_bind]
      cases rest : runBranches mark named item later with
      | mk others outcome =>
        cases outcome <;>
          simp [branches, rest, Passage.behind, Passage.map, Outcome.map, pure, ofReader,
            Reader.answer]

/-- Branches behind a mark that stands next. -/
theorem run_branches_of_word {mark : String} {named : mark ≠ ""} {item : Tolerant (α ⊕ β)}
    {cursor : Cursor} (here : cursor.word = mark) :
    (branches mark named item).run cursor =
      (item >>= fun branch =>
        match branch with
        | .inr last => pure ([], some last)
        | .inl value =>
          branches mark named item >>= fun others => pure (value :: others.1, others.2)).run
            cursor.take := by
  rw [run_branches, run_bind]
  simp only [ofReader, Reader.run_accept_of_word here, ↓reduceIte]
  rfl

/-- No branches where another word stands next. -/
theorem run_branches_of_ne {mark : String} {named : mark ≠ ""} {item : Tolerant (α ⊕ β)}
    {cursor : Cursor} (other : cursor.word ≠ mark) :
    (branches mark named item).run cursor = ⟨[], .read ([], none) cursor.look⟩ := by
  rw [run_branches, run_bind]
  simp only [ofReader, Reader.run_accept_of_ne other]
  rfl

/-- Branches stream when their item does. -/
theorem streams_branches {mark : String} {named : mark ≠ ""} {item : Tolerant (α ⊕ β)}
    (streams : item.Streams) : (branches mark named item).Streams := by
  intro cursor
  induction measured : cursor.rest.length using Nat.strongRecOn generalizing cursor with
  | ind length ih =>
    by_cases ended : cursor.rest = []
    · exact streamsAt_end _ ended
    · intro later
      have same := Cursor.word_extend ended later
      by_cases here : cursor.word = mark
      · rw [run_branches_of_word here, run_branches_of_word (by rwa [same]),
          Cursor.take_extend ended]
        refine (streams cursor.take).bind ?_ later
        intro faults branch after ran
        cases branch with
        | inr last => exact streams_pure _ _
        | inl value =>
          have shorter : after.rest.length < length := measured ▸ length_lt_of_take ended ran
          exact (ih _ shorter after rfl).bind fun _ others _ _ => streams_pure _ _
      · left
        rw [run_branches_of_ne here, run_branches_of_ne (by rwa [same]),
          Cursor.look_extend ended]
        rfl

/-- Branches that were read hold when the text does not go on with another branch. -/
theorem branches_holdsBefore {mark : String} {named : mark ≠ ""} {item : Tolerant (α ⊕ β)}
    {later : List Token} (stands : item.StandsBefore later) (apart : ¬StartsWith mark later) :
    (branches mark named item).HoldsBefore later := by
  intro cursor
  induction size : cursor.rest.length using Nat.strongRecOn generalizing cursor with
  | ind length ih =>
    intro faults value after ran
    by_cases here : cursor.word = mark
    · have more := Cursor.rest_ne_nil_of_word named here
      rw [run_branches_of_word here] at ran
      rw [run_branches_of_word (by rwa [Cursor.word_extend more]), Cursor.take_extend more]
      obtain ⟨ahead, branch, place, others, first, rest, rfl⟩ := bind_eq_read.1 ran
      have first' := stands _ _ _ _ first
      cases branch with
      | inr last =>
        obtain ⟨same, rfl⟩ := ofReader_eq_read.1 rest
        obtain ⟨rfl, rfl⟩ := Reader.pure_eq_read.1 same
        exact ⟨place.shown, bind_eq_read.2 ⟨_, _, _, _, first', rfl, rfl⟩⟩
      | inl value =>
        obtain ⟨inner, values, end', none, recursive, done, rfl⟩ := bind_eq_read.1 rest
        obtain ⟨same, rfl⟩ := ofReader_eq_read.1 done
        obtain ⟨rfl, rfl⟩ := Reader.pure_eq_read.1 same
        have shorter : place.rest.length < length := size ▸ length_lt_of_take more first
        obtain ⟨shown, recursive'⟩ := ih _ shorter place rfl _ _ _ recursive
        exact ⟨shown, bind_eq_read.2 ⟨_, _, _, _, first',
          bind_eq_read.2 ⟨_, _, _, _, recursive', rfl, rfl⟩, rfl⟩⟩
    · have other : (cursor.extend later).word ≠ mark := Cursor.word_extend_ne named here apart
      rw [run_branches_of_ne here, Passage.mk.injEq, Outcome.read.injEq] at ran
      obtain ⟨rfl, rfl, rfl⟩ := ran
      refine ⟨(cursor.extend later).look.shown, ?_⟩
      have place : (cursor.extend later).look =
          ⟨cursor.look.rest ++ later, (cursor.extend later).look.shown⟩ := by
        have left : (cursor.extend later).look.rest = cursor.look.rest ++ later := by simp
        rw [← left]
      rw [run_branches_of_ne other, ← place]

end Tolerant

end Syntax

end FormPatch
