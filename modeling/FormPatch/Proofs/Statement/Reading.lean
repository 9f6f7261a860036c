import FormPatch.Proofs.Statement.Streaming

/-!
# Readings of texts that go on

A text is read one statement at a time. Where it was read without a fault, its reading does not
change when the text goes on, and what follows is read as a text of its own.
-/

namespace FormPatch.Reading

open Syntax Syntax.Tolerant

variable {α : Type} {grammar : Grammar α} {recovery : Recovery}

/-- Readings in front of a reading join. -/
theorem after_after (first second : List Located) (front behind : List (Statement α))
    (reading : Reading α) :
    (reading.after second behind).after first front =
      reading.after (first ++ second) (front ++ behind) := by
  simp only [after, List.append_assoc]

/-- At the end of a text nothing is read. -/
theorem ofCursor_end {cursor : Cursor} (ended : cursor.rest = []) :
    ofCursor grammar recovery cursor = ⟨[], []⟩ := by
  rw [ofCursor, dif_pos ended]

/-- A statement that was read comes in front of the rest. -/
theorem ofCursor_read {cursor next : Cursor} {faults : List Located} {statement : Statement α}
    (more : cursor.rest ≠ [])
    (ran : (Statement.read grammar recovery).run cursor = ⟨faults, .read statement next⟩) :
    ofCursor grammar recovery cursor =
      (ofCursor grammar recovery next).after faults [statement] := by
  rw [ofCursor, dif_neg more]
  split
  · next found place same =>
    rw [ran] at same
    cases same
    rfl
  · next error place same =>
    rw [ran] at same
    cases same

/-- Behind a statement that was not read, reading ends or goes on where recovery stops. -/
theorem ofCursor_failed {cursor next : Cursor} {faults : List Located} {error : Located}
    (more : cursor.rest ≠ [])
    (ran : (Statement.read grammar recovery).run cursor = ⟨faults, .failed error next⟩) :
    ofCursor grammar recovery cursor =
      if recovery = .abort then ⟨[], faults ++ [error]⟩
      else (ofCursor grammar recovery (next.recover false)).after (faults ++ [error]) [] := by
  rw [ofCursor, dif_neg more]
  split
  · next found place same =>
    rw [ran] at same
    cases same
  · next error place same =>
    rw [ran] at same
    cases same
    rfl

/-- A statement that was not read leaves a fault. -/
theorem faults_ofCursor_failed {cursor next : Cursor} {faults : List Located} {error : Located}
    (more : cursor.rest ≠ [])
    (ran : (Statement.read grammar recovery).run cursor = ⟨faults, .failed error next⟩) :
    (ofCursor grammar recovery cursor).faults ≠ [] := by
  rw [ofCursor_failed more ran]
  split
  · simp
  · simp [after]

/-- Looking at a word first changes nothing for a statement. -/
theorem read_look (cursor : Cursor) :
    (Statement.read grammar recovery).run cursor.look =
      (Statement.read grammar recovery).run cursor := by
  have same : cursor.look.word = cursor.word := by
    simp only [Cursor.word, Cursor.rest_look]
  have again : cursor.look.look = cursor.look := by
    obtain ⟨rest, shown⟩ := cursor
    cases rest <;> rfl
  obtain ⟨_, unfolded⟩ := Statement.read_eq grammar recovery
  simp only [unfolded, Statement.readWith, same, again]

/-- The place shown before a statement does not matter. -/
theorem read_congr {first second : Cursor} (same : first.rest = second.rest)
    (more : first.rest ≠ []) :
    (Statement.read grammar recovery).run first = (Statement.read grammar recovery).run second := by
  obtain ⟨rest, shown⟩ := first
  obtain ⟨rest', shown'⟩ := second
  cases same
  have looked : (⟨rest, shown⟩ : Cursor).look = (⟨rest, shown'⟩ : Cursor).look := by
    cases rest with
    | nil => exact absurd rfl more
    | cons token rest => rfl
  rw [← read_look, looked, read_look]

/-- The place shown before a text does not matter. -/
theorem ofCursor_congr {first second : Cursor} (same : first.rest = second.rest) :
    ofCursor grammar recovery first = ofCursor grammar recovery second := by
  by_cases ended : first.rest = []
  · rw [ofCursor_end ended, ofCursor_end (same ▸ ended)]
  · have alike : (Statement.read grammar recovery).run second =
        (Statement.read grammar recovery).run first := (read_congr same ended).symm
    cases ran : (Statement.read grammar recovery).run first with
    | mk faults outcome =>
      rw [ran] at alike
      cases outcome with
      | read statement next => rw [ofCursor_read ended ran, ofCursor_read (same ▸ ended) alike]
      | failed error next => rw [ofCursor_failed ended ran, ofCursor_failed (same ▸ ended) alike]

/-- Where no chain starts, a statement is an expression. -/
theorem run_read_of_ne {cursor : Cursor} (other : cursor.word ≠ "if") :
    (Statement.read grammar recovery).run cursor =
      ⟨[], (grammar.read.run cursor.look).map .expression⟩ := by
  obtain ⟨_, unfolded⟩ := Statement.read_eq grammar recovery
  simp only [unfolded, Statement.readWith, if_neg other]

/-- An expression that was read comes in front of the rest. -/
theorem ofCursor_expression {cursor next : Cursor} {payload : α} (more : cursor.rest ≠ [])
    (other : cursor.word ≠ "if") (ran : grammar.read.run cursor.look = .read payload next) :
    ofCursor grammar recovery cursor =
      (ofCursor grammar recovery next).after [] [.expression payload] := by
  refine ofCursor_read more ?_
  rw [run_read_of_ne other, ran]
  rfl

/-- Behind an expression that was not read, reading goes on where recovery stops. -/
theorem ofCursor_expression_failed {cursor next : Cursor} {error : Located}
    (more : cursor.rest ≠ []) (other : cursor.word ≠ "if")
    (ran : grammar.read.run cursor.look = .failed error next) :
    ofCursor grammar .resume cursor =
      (ofCursor grammar .resume (next.recover false)).after [error] [] := by
  have failed : (Statement.read grammar .resume).run cursor = ⟨[], .failed error next⟩ := by
    rw [run_read_of_ne other, ran]
    rfl
  rw [ofCursor_failed more failed, if_neg (by decide)]
  rfl

/-- Where a text was read without a fault, what it goes on with is read as a text of its own. -/
theorem ofCursor_extend (streams : grammar.Streams) (cursor : Cursor)
    (clean : (ofCursor grammar recovery cursor).faults = []) {later : List Token}
    (apart : ¬StartsWith "else" later) :
    ofCursor grammar recovery (cursor.extend later) =
      (ofTokens grammar recovery later).after [] (ofCursor grammar recovery cursor).statements := by
  induction measured : cursor.rest.length using Nat.strongRecOn generalizing cursor with
  | ind length ih =>
    by_cases ended : cursor.rest = []
    · have same : (cursor.extend later).rest = (Cursor.ofTokens later).rest := by
        rw [Cursor.rest_extend, ended]
        rfl
      rw [ofCursor_end ended, ofCursor_congr same]
      rfl
    · cases ran : (Statement.read grammar recovery).run cursor with
      | mk faults outcome =>
        have taken := (Statement.progresses_read grammar recovery).length_lt ended ran
        cases outcome with
        | failed error next => exact absurd clean (faults_ofCursor_failed ended ran)
        | read statement next =>
          rw [ofCursor_read ended ran] at clean ⊢
          obtain ⟨rfl, clean'⟩ := List.append_eq_nil_iff.1 clean
          have longer : (cursor.extend later).rest ≠ [] := by simp [ended]
          obtain ⟨shown, ran'⟩ := Statement.holdsBefore_read streams recovery apart _ _ _ _ ran
          have shorter : next.rest.length < length := measured ▸ taken
          have same : (⟨next.rest ++ later, shown⟩ : Cursor).rest = (next.extend later).rest := rfl
          rw [ofCursor_read longer ran', ofCursor_congr same, ih _ shorter next clean' rfl,
            after_after]
          rfl

end FormPatch.Reading
