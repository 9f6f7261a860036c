import FormPatch.Proofs.Guard.Language
import FormPatch.Proofs.Statement.Reading
import FormPatch.Proofs.Syntax.Composed

/-!
# Statements and the places of tokens

Texts with the same words are read alike, wherever their tokens stand: the same statements come out
and the same faults are met, in the same order. Only the places of the faults differ. Recovery,
blocks, chains and whole texts have this when the expressions of the grammar do.
-/

namespace FormPatch

open Syntax Syntax.Tolerant

variable {α β : Type}

namespace Syntax

/-- Passages that differ in places only: the same faults were come over, and the ends are alike. -/
structure Passage.Alike (left right : Passage α) : Prop where
  /-- The faults are the same. -/
  faults : left.faults.map Located.fault = right.faults.map Located.fault
  /-- The outcomes are alike. -/
  outcome : left.outcome.Alike right.outcome

namespace Cursor

/-- Skipping stops at the same word, wherever the tokens stand. -/
theorem words_skipFrom_congr (inBlock : Bool) (depth : Nat) {left right : List Token}
    (words : left.map Token.text = right.map Token.text) (shown shown' : Position) :
    (skipFrom inBlock depth left shown).words = (skipFrom inBlock depth right shown').words := by
  induction left generalizing right depth shown shown' with
  | nil =>
    obtain rfl := List.map_eq_nil_iff.1 words.symm
    simp only [skipFrom, Cursor.words]
  | cons token left ih =>
    obtain ⟨other, right, rfl, same, words⟩ := List.map_eq_cons_iff.1 words.symm
    have here : token.text = other.text := same.symm
    have later (depth : Nat) := ih depth words.symm token.position other.position
    cases depth with
    | zero =>
      simp only [skipFrom, here]
      split
      · simp only [Cursor.words, List.map_cons, here, words]
      · split
        · exact later 1
        · split
          · exact words.symm
          · exact later 0
    | succ depth =>
      have next : (Cursor.mk left token.position).word = (Cursor.mk right other.position).word :=
        word_congr words.symm
      simp only [skipFrom, here, next]
      split
      · split
        · exact words_look_congr words.symm
        · exact later depth
      · split
        · exact later (depth + 2)
        · exact later (depth + 1)

/-- Recovery stops at the same word, wherever the tokens stand. -/
theorem words_recover_congr (inBlock : Bool) {left right : Cursor}
    (words : left.words = right.words) :
    (left.recover inBlock).words = (right.recover inBlock).words :=
  words_skipFrom_congr inBlock 0 words left.shown right.shown

/-- Texts with the same words end together. -/
theorem rest_eq_nil_congr {left right : Cursor} (words : left.words = right.words) :
    left.rest = [] ↔ right.rest = [] := by
  rw [rest_eq_nil, rest_eq_nil, words]

end Cursor

namespace Tolerant

/-- Whether the places of tokens make no difference to a reader. -/
def IgnoresPlaces (reader : Tolerant α) : Prop :=
  ∀ left right : Cursor, left.words = right.words → (reader.run left).Alike (reader.run right)

/-- The places of tokens make no difference to a tolerant reader when they make none to the reader
itself. -/
theorem ignoresPlaces_ofReader {reader : Reader α} (ignores : reader.IgnoresPlaces) :
    (ofReader reader).IgnoresPlaces :=
  fun left right words => ⟨rfl, ignores left right words⟩

/-- The places of tokens make no difference to a reader that takes nothing. -/
theorem ignoresPlaces_pure (value : α) : (pure value : Tolerant α).IgnoresPlaces :=
  ignoresPlaces_ofReader (Reader.ignoresPlaces_pure value)

/-- Readers in a row run alike when the second one does behind each value of the first. -/
theorem alike_bind {reader : Tolerant α} {next : α → Tolerant β} {left right : Cursor}
    (first : (reader.run left).Alike (reader.run right))
    (second : ∀ faults value after after', reader.run left = ⟨faults, .read value after⟩ →
      after.words = after'.words → ((next value).run after).Alike ((next value).run after')) :
    ((reader >>= next).run left).Alike ((reader >>= next).run right) := by
  rw [run_bind, run_bind]
  generalize ran : reader.run left = passage, reader.run right = other at first
  obtain ⟨faults, outcome⟩ := passage
  obtain ⟨faults', outcome'⟩ := other
  obtain ⟨same, alike⟩ := first
  cases alike with
  | read words =>
    have behind := second _ _ _ _ ran words
    refine ⟨?_, behind.outcome⟩
    simp only [Passage.behind, List.map_append]
    rw [show faults.map Located.fault = faults'.map Located.fault from same, behind.faults]
  | failed words => exact ⟨same, .failed words⟩

/-- Readers in a row ignore places when each does. -/
theorem IgnoresPlaces.bind {reader : Tolerant α} {next : α → Tolerant β}
    (first : reader.IgnoresPlaces) (second : ∀ value, (next value).IgnoresPlaces) :
    (reader >>= next).IgnoresPlaces :=
  fun left right words => alike_bind (first left right words)
    fun _ value after after' _ words => second value after after' words

/-- Branches ignore places when their item does. -/
theorem ignoresPlaces_branches {mark : String} {named : mark ≠ ""} {item : Tolerant (α ⊕ β)}
    (items : item.IgnoresPlaces) : (branches mark named item).IgnoresPlaces := by
  intro left
  induction measured : left.rest.length using Nat.strongRecOn generalizing left with
  | ind length ih =>
    intro right words
    have same := Cursor.word_congr words
    by_cases here : left.word = mark
    · have more := Cursor.rest_ne_nil_of_word named here
      rw [run_branches_of_word here, run_branches_of_word (same ▸ here)]
      refine alike_bind (items _ _ (Cursor.words_take_congr words)) ?_
      intro faults branch after after' ran words
      cases branch with
      | inr last => exact ignoresPlaces_pure _ _ _ words
      | inl value =>
        have shorter : after.rest.length < length := measured ▸ length_lt_of_take more ran
        exact alike_bind (ih _ shorter after rfl after' words)
          fun _ others place place' _ words => ignoresPlaces_pure _ _ _ words
    · rw [run_branches_of_ne here, run_branches_of_ne (same ▸ here)]
      exact ⟨rfl, .read (Cursor.words_look_congr words)⟩

end Tolerant

end Syntax

namespace Statement

section Readers

variable {recovery : Recovery} {statement : Tolerant (Statement α)}

/-- An attempt ignores places when the statement does. -/
theorem ignoresPlaces_attempt (inBlock : Bool) (ignores : statement.IgnoresPlaces) :
    (attempt recovery inBlock statement).IgnoresPlaces := by
  intro left right words
  have here := ignores left right words
  simp only [attempt]
  generalize statement.run left = passage, statement.run right = other at here
  obtain ⟨faults, outcome⟩ := passage
  obtain ⟨faults', outcome'⟩ := other
  obtain ⟨same, alike⟩ := here
  cases alike with
  | read words => exact ⟨same, .read words⟩
  | failed words =>
    simp only
    split
    · exact ⟨same, .failed words⟩
    · refine ⟨?_, .read (Cursor.words_recover_congr inBlock words)⟩
      rw [List.map_append, List.map_append]
      exact congrArg (· ++ _) same

/-- The places of tokens make no difference to the statements of a block when they make none to each
statement. -/
theorem ignoresPlaces_body {progresses : statement.Progresses}
    (ignores : statement.IgnoresPlaces) :
    (body recovery statement progresses).IgnoresPlaces := by
  intro left
  induction measured : left.rest.length using Nat.strongRecOn generalizing left with
  | ind length ih =>
    intro right words
    have same := Cursor.word_congr words
    by_cases ended : left.rest = []
    · rw [run_body_of_end ended, run_body_of_end ((Cursor.rest_eq_nil_congr words).1 ended)]
      exact ⟨rfl, .failed words⟩
    · by_cases closes : left.word = "\x7d"
      · rw [run_body_of_brace closes, run_body_of_brace (same ▸ closes)]
        exact ⟨rfl, .read (Cursor.words_take_congr words)⟩
      · have more : right.rest ≠ [] := fun none => ended ((Cursor.rest_eq_nil_congr words).2 none)
        rw [run_body ended closes, run_body more (same ▸ closes)]
        refine alike_bind
          (ignoresPlaces_attempt true ignores _ _ (Cursor.words_look_congr words)) ?_
        intro faults front after after' ran words
        have shorter : after.rest.length < length :=
          measured ▸ length_attempt_lt progresses ended ran
        exact alike_bind (ih _ shorter after rfl after' words)
          fun _ others place place' _ words => ignoresPlaces_pure _ _ _ words

/-- The places of tokens make no difference to a block when they make none to its statements. -/
theorem ignoresPlaces_readBlock {progresses : statement.Progresses}
    (ignores : statement.IgnoresPlaces) :
    (readBlock recovery statement progresses).IgnoresPlaces :=
  (ignoresPlaces_ofReader (Reader.ignoresPlaces_expect _)).bind fun _ => ignoresPlaces_body ignores

/-- A statement ignores places when the expressions and the chains do. -/
theorem ignoresPlaces_readWith {grammar : Grammar α} (ignores : grammar.read.IgnoresPlaces)
    (chained : statement.IgnoresPlaces) : (readWith grammar statement).IgnoresPlaces := by
  intro left right words
  have looked := Cursor.words_look_congr words
  simp only [readWith, Cursor.word_congr words]
  split
  · exact chained _ _ looked
  · have here := ignores _ _ looked
    generalize grammar.read.run left.look = outcome, grammar.read.run right.look = other at here
    cases here with
    | read words => exact ⟨rfl, .read words⟩
    | failed words => exact ⟨rfl, .failed words⟩

end Readers

section Chain

variable {block : Tolerant (List (Statement α))}

/-- The places of tokens make no difference to a branch when they make none to its block. -/
theorem ignoresPlaces_readBranch (ignores : block.IgnoresPlaces) :
    (readBranch block).IgnoresPlaces :=
  (ignoresPlaces_ofReader (Reader.ignoresPlaces_expect _)).bind fun _ =>
    (ignoresPlaces_ofReader Guard.ignoresPlaces_read).bind fun _ =>
      (ignoresPlaces_ofReader (Reader.ignoresPlaces_expect _)).bind fun _ =>
        ignores.bind fun _ => ignoresPlaces_pure _

/-- The places of tokens make no difference behind an else when they make none to the block there.
-/
theorem ignoresPlaces_readElse (ignores : block.IgnoresPlaces) :
    (readElse block).IgnoresPlaces := by
  refine (ignoresPlaces_ofReader (Reader.composed_accept "if").ignoresPlaces).bind fun found => ?_
  cases found with
  | true => exact (ignoresPlaces_readBranch ignores).bind fun _ => ignoresPlaces_pure _
  | false => exact ignores.bind fun _ => ignoresPlaces_pure _

/-- The places of tokens make no difference to a chain when they make none to its blocks. -/
theorem ignoresPlaces_readChain (ignores : block.IgnoresPlaces) :
    (readChain block).IgnoresPlaces :=
  (ignoresPlaces_ofReader (Reader.ignoresPlaces_expect _)).bind fun _ =>
    (ignoresPlaces_readBranch ignores).bind fun _ =>
      (ignoresPlaces_branches (ignoresPlaces_readElse ignores)).bind fun _ => ignoresPlaces_pure _

/-- The places of tokens make no difference to a chain that is too deep. -/
theorem ignoresPlaces_readTooDeep : (readTooDeep : Tolerant (Statement α)).IgnoresPlaces :=
  ignoresPlaces_ofReader
    ((Reader.ignoresPlaces_expect "if").bind fun _ => Reader.ignoresPlaces_fail _)

end Chain

/-- However deep blocks may lie, a statement ignores places when the expressions do. -/
theorem ignoresPlaces_readNested {grammar : Grammar α} (ignores : grammar.read.IgnoresPlaces)
    (recovery : Recovery) (room : Nat) : (readNested grammar recovery room).1.IgnoresPlaces := by
  induction room with
  | zero => exact ignoresPlaces_readWith ignores ignoresPlaces_readTooDeep
  | succ room ih =>
    exact ignoresPlaces_readWith ignores (ignoresPlaces_readChain (ignoresPlaces_readBlock ih))

end Statement

namespace Reading

/-- Readings that differ in places only: the same statements and the same faults, in order. -/
structure Alike (left right : Reading α) : Prop where
  /-- The statements are the same. -/
  statements : left.statements = right.statements
  /-- The faults are the same. -/
  faults : left.faults.map Located.fault = right.faults.map Located.fault

/-- What is read and met in front comes in front of both readings. -/
theorem Alike.after {left right : Reading α} (alike : left.Alike right)
    {faults faults' : List Located}
    (same : faults.map Located.fault = faults'.map Located.fault)
    (front : List (Statement α)) : (left.after faults front).Alike (right.after faults' front) where
  statements := congrArg (front ++ ·) alike.statements
  faults := by
    simp only [Reading.after, List.map_append]
    rw [same, alike.faults]

/-- Texts with the same words are read alike. -/
theorem alike_ofCursor {grammar : Grammar α} (ignores : grammar.read.IgnoresPlaces)
    (recovery : Recovery) {left right : Cursor} (words : left.words = right.words) :
    (ofCursor grammar recovery left).Alike (ofCursor grammar recovery right) := by
  induction measured : left.rest.length using Nat.strongRecOn generalizing left right with
  | ind length ih =>
    by_cases ended : left.rest = []
    · rw [ofCursor_end ended, ofCursor_end ((Cursor.rest_eq_nil_congr words).1 ended)]
      exact ⟨rfl, rfl⟩
    · have more : right.rest ≠ [] := fun none => ended ((Cursor.rest_eq_nil_congr words).2 none)
      have here := Statement.ignoresPlaces_readNested ignores recovery Guard.mostNesting _ _ words
      change ((Statement.read grammar recovery).run left).Alike
        ((Statement.read grammar recovery).run right) at here
      cases ran : (Statement.read grammar recovery).run left with
      | mk faults outcome =>
        cases ran' : (Statement.read grammar recovery).run right with
        | mk faults' outcome' =>
          rw [ran, ran'] at here
          obtain ⟨same, alike⟩ := here
          have taken := (Statement.progresses_read grammar recovery).length_lt ended ran
          rw [measured] at taken
          cases alike with
          | read words =>
            rw [ofCursor_read ended ran, ofCursor_read more ran']
            exact (ih _ taken words rfl).after same _
          | @failed fault here there next next' words =>
            have met : (faults ++ [Located.mk fault here]).map Located.fault =
                (faults' ++ [Located.mk fault there]).map Located.fault := by
              rw [List.map_append, List.map_append]
              exact congrArg (· ++ _) same
            rw [ofCursor_failed ended ran, ofCursor_failed more ran']
            split
            · exact ⟨rfl, met⟩
            · have fewer := (next.recover_suffix false).length_le
              have shorter : (next.recover false).rest.length < length :=
                Nat.lt_of_le_of_lt fewer taken
              exact (ih _ shorter (Cursor.words_recover_congr false words) rfl).after met []

end Reading

end FormPatch
