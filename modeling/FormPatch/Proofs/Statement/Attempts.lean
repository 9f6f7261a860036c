import FormPatch.Proofs.Statement.Reading

/-!
# Attempts to read a statement

Reading a text is a course of attempts: each statement is attempted, and within a chain each
statement of its blocks, whether the chain is read or not. Here the readers of statements are
followed: beside what they answer, the attempts that they make are listed, in the order in which
these start. What is answered does not change.

Main statement: the course of a text answers what reading the text does.
-/

namespace FormPatch

open Syntax Syntax.Tolerant

/-- An attempt to read a statement. -/
structure Attempt (α : Type) where
  /-- Where it starts. -/
  start : Cursor
  /-- The statement or the fault at its end, with the cursor that is left. -/
  outcome : Outcome (Statement α)

namespace Attempt

variable {α : Type}

/-- The statement that was read, if one was. -/
def statement? (attempt : Attempt α) : Option (Statement α) :=
  match attempt.outcome with
  | .read statement _ => some statement
  | .failed _ _ => none

/-- The fault, if no statement was read. -/
def fault? (attempt : Attempt α) : Option Located :=
  match attempt.outcome with
  | .read _ _ => none
  | .failed error _ => some error

/-- The statements that were read, in the order of the attempts. -/
def statements (trail : List (Attempt α)) : List (Statement α) := trail.filterMap statement?

/-- The faults at the ends of attempts, in the order of the attempts. -/
def faults (trail : List (Attempt α)) : List Located := trail.filterMap fault?

/-- Attempts behind each other answer their statements in order. -/
theorem statements_append (front behind : List (Attempt α)) :
    statements (front ++ behind) = statements front ++ statements behind :=
  List.filterMap_append

/-- Attempts behind each other meet their faults in order. -/
theorem faults_append (front behind : List (Attempt α)) :
    faults (front ++ behind) = faults front ++ faults behind :=
  List.filterMap_append

/-- An attempt ends with a statement or with a fault. -/
theorem length_statements_add_faults (trail : List (Attempt α)) :
    (statements trail).length + (faults trail).length = trail.length := by
  induction trail with
  | nil => rfl
  | cons attempt trail ih =>
    obtain ⟨start, outcome⟩ := attempt
    cases outcome with
    | read statement after =>
      have front : statements (⟨start, .read statement after⟩ :: trail) =
        statement :: statements trail := rfl
      have same : faults (⟨start, .read statement after⟩ :: trail) = faults trail := rfl
      rw [front, same, List.length_cons, List.length_cons, ← ih]
      omega
    | failed error after =>
      have same : statements (⟨start, .failed error after⟩ :: trail) = statements trail := rfl
      have front : faults (⟨start, .failed error after⟩ :: trail) = error :: faults trail := rfl
      rw [front, same, List.length_cons, List.length_cons, ← ih]
      omega

end Attempt

/-- A reader and the attempts that its runs make. -/
structure Followed (α β : Type) where
  /-- The reader. -/
  reader : Tolerant β
  /-- The attempts that a run makes, in the order in which they start. -/
  trail : Cursor → List (Attempt α)

namespace Followed

variable {α β γ : Type}

/-- A reader that attempts no statement. -/
def ofReader (reader : Reader β) : Followed α β := ⟨.ofReader reader, fun _ => []⟩

instance : MonadLift Reader (Followed α) := ⟨ofReader⟩

/-- Follows a second reader behind the first one, chosen by its value. -/
def andThen (first : Followed α β) (next : β → Followed α γ) : Followed α γ where
  reader := first.reader >>= fun value => (next value).reader
  trail cursor :=
    first.trail cursor ++
      match first.reader.run cursor with
      | ⟨_, .read value after⟩ => (next value).trail after
      | ⟨_, .failed _ _⟩ => []

instance : Monad (Followed α) where
  pure value := ofReader (pure value)
  bind := andThen

/-- The attempts of the items behind each mark, up to an item that is the last one. -/
def trailBranches (mark : String) (named : mark ≠ "") (item : Followed α (β ⊕ γ))
    (cursor : Cursor) : List (Attempt α) :=
  if here : cursor.word = mark then
    item.trail cursor.take ++
      match ran : item.reader.run cursor.take with
      | ⟨_, .read (.inl _) after⟩ =>
        have : after.rest.length < cursor.rest.length :=
          length_lt_of_take (Cursor.rest_ne_nil_of_word named here) ran
        trailBranches mark named item after
      | ⟨_, .read (.inr _) _⟩ => []
      | ⟨_, .failed _ _⟩ => []
  else []
termination_by cursor.rest.length

/-- Follows the items behind each mark. -/
def branches (mark : String) (named : mark ≠ "") (item : Followed α (β ⊕ γ)) :
    Followed α (List β × Option γ) :=
  ⟨Tolerant.branches mark named item.reader, trailBranches mark named item⟩

/-- Follows an attempt, which comes in front of those that it makes itself. -/
def attempt (recovery : Recovery) (inBlock : Bool) (statement : Followed α (Statement α)) :
    Followed α (List (Statement α)) where
  reader := Statement.attempt recovery inBlock statement.reader
  trail cursor := ⟨cursor, (statement.reader.run cursor).outcome⟩ :: statement.trail cursor

/-- The attempts within a block whose opening brace has been taken. -/
def trailBody (recovery : Recovery) (statement : Followed α (Statement α))
    (progresses : statement.reader.Progresses) (cursor : Cursor) : List (Attempt α) :=
  if more : cursor.rest = [] then []
  else if cursor.word = "\x7d" then []
  else
    (statement.attempt recovery true).trail cursor.look ++
      match ran : (Statement.attempt recovery true statement.reader).run cursor.look with
      | ⟨_, .read _ after⟩ =>
        have : after.rest.length < cursor.rest.length :=
          Statement.length_attempt_lt progresses more ran
        trailBody recovery statement progresses after
      | ⟨_, .failed _ _⟩ => []
termination_by cursor.rest.length

/-- Follows the statements of a block whose opening brace has been taken, and its closing brace. -/
def body (recovery : Recovery) (statement : Followed α (Statement α))
    (progresses : statement.reader.Progresses) : Followed α (List (Statement α)) :=
  ⟨Statement.body recovery statement.reader progresses, trailBody recovery statement progresses⟩

/-- Follows a block, from brace to brace. -/
def block (recovery : Recovery) (statement : Followed α (Statement α))
    (progresses : statement.reader.Progresses) : Followed α (List (Statement α)) := do
  Reader.expect "\x7b"
  body recovery statement progresses

/-- Follows a guard in parentheses and the block behind it. -/
def branch (block : Followed α (List (Statement α))) :
    Followed α (Guard × List (Statement α)) := do
  Reader.expect "("
  let guard ← Guard.read
  Reader.expect ")"
  let body ← block
  pure (guard, body)

/-- Follows what stands behind `else`. -/
def behindElse (block : Followed α (List (Statement α))) :
    Followed α ((Guard × List (Statement α)) ⊕ List (Statement α)) := do
  if ← Reader.accept "if" then
    let branch ← branch block
    pure (.inl branch)
  else
    let body ← block
    pure (.inr body)

/-- The word in front of another branch is not the end of the text. -/
theorem else_ne_empty : "else" ≠ "" := by decide

/-- Follows a chain of guarded blocks behind its first word. -/
def behindIf (block : Followed α (List (Statement α))) : Followed α (Statement α) := do
  let first ← branch block
  let found ← branches "else" else_ne_empty (behindElse block)
  pure (.conditional first.1 first.2 (.ofBranches found.1 found.2))

/-- Following a branch is reading one. -/
theorem reader_branch (block : Followed α (List (Statement α))) :
    (branch block).reader = Statement.readBranch block.reader :=
  rfl

/-- Following what stands behind an else is reading it. -/
theorem reader_behindElse (block : Followed α (List (Statement α))) :
    (behindElse block).reader = Statement.readElse block.reader :=
  congrArg (Tolerant.ofReader (Reader.accept "if") >>= ·) (funext fun found => by
    cases found <;> rfl)

/-- Behind its first word, a chain is read as it is followed. -/
theorem run_readChain (block : Followed α (List (Statement α))) {cursor : Cursor}
    (here : cursor.word = "if") :
    (Statement.readChain block.reader).run cursor = (behindIf block).reader.run cursor.take := by
  have chain : Statement.readChain block.reader =
      Tolerant.ofReader (Reader.expect "if") >>= fun _ => (behindIf block).reader := by
    simp only [Statement.readChain, ← reader_branch, ← reader_behindElse]
    rfl
  have taken : (Tolerant.ofReader (Reader.expect "if")).run cursor = ⟨[], .read () cursor.take⟩ :=
    Tolerant.ofReader_eq_read.2 ⟨Reader.expect_eq_read.2 ⟨here, rfl⟩, rfl⟩
  rw [chain, run_bind, taken]
  rfl

/-- The attempts within a statement in which blocks may lie as deep as the room allows. -/
def trailNested (grammar : Grammar α) (recovery : Recovery) : Nat → Cursor → List (Attempt α)
  | 0, _ => []
  | room + 1, cursor =>
    if cursor.word = "if" then
      (behindIf (block recovery
        ⟨(Statement.readNested grammar recovery room).1, trailNested grammar recovery room⟩
        (Statement.readNested grammar recovery room).2)).trail cursor.look.take
    else []

/-- Follows a statement in which blocks may lie as deep as the room allows. -/
def nested (grammar : Grammar α) (recovery : Recovery) (room : Nat) : Followed α (Statement α) :=
  ⟨(Statement.readNested grammar recovery room).1, trailNested grammar recovery room⟩

/-- Follows one statement. -/
def statement (grammar : Grammar α) (recovery : Recovery) : Followed α (Statement α) :=
  nested grammar recovery Guard.mostNesting

end Followed

/-- What happens while a text is read. -/
structure Course (α : Type) where
  /-- The statements and the faults. -/
  reading : Reading α
  /-- The attempts that were made, in the order in which they started. -/
  trail : List (Attempt α)
  /-- The cursor that is left at the end. -/
  left : Cursor

namespace Course

variable {α : Type}

/-- The course of reading from a cursor on. -/
def ofCursor (grammar : Grammar α) (recovery : Recovery) (cursor : Cursor) : Course α :=
  if more : cursor.rest = [] then ⟨⟨[], []⟩, [], cursor⟩
  else
    let attempts := ((Followed.statement grammar recovery).attempt recovery false).trail cursor
    match ran : (Statement.read grammar recovery).run cursor with
    | ⟨faults, .read statement next⟩ =>
      have : next.rest.length < cursor.rest.length :=
        (Statement.progresses_read grammar recovery).length_lt more ran
      let rest := ofCursor grammar recovery next
      ⟨rest.reading.after faults [statement], attempts ++ rest.trail, rest.left⟩
    | ⟨faults, .failed error next⟩ =>
      if recovery = .abort then ⟨⟨[], faults ++ [error]⟩, attempts, next⟩
      else
        have : (next.recover false).rest.length < cursor.rest.length :=
          Nat.lt_of_le_of_lt (next.recover_suffix false).length_le
            ((Statement.progresses_read grammar recovery).length_lt more ran)
        let rest := ofCursor grammar recovery (next.recover false)
        ⟨rest.reading.after (faults ++ [error]) [], attempts ++ rest.trail, rest.left⟩
termination_by cursor.rest.length

/-- The course of reading a token list. -/
def ofTokens (grammar : Grammar α) (recovery : Recovery) (tokens : List Token) : Course α :=
  ofCursor grammar recovery (.ofTokens tokens)

section Steps

variable {grammar : Grammar α} {recovery : Recovery} {cursor next : Cursor}
  {faults : List Located}

/-- At the end of a text nothing is attempted. -/
theorem ofCursor_end (ended : cursor.rest = []) :
    ofCursor grammar recovery cursor = ⟨⟨[], []⟩, [], cursor⟩ := by
  rw [ofCursor, dif_pos ended]

/-- A statement that was read comes in front of the rest, and so do its attempts. -/
theorem ofCursor_read {statement : Statement α} (more : cursor.rest ≠ [])
    (ran : (Statement.read grammar recovery).run cursor = ⟨faults, .read statement next⟩) :
    ofCursor grammar recovery cursor =
      ⟨(ofCursor grammar recovery next).reading.after faults [statement],
        ((Followed.statement grammar recovery).attempt recovery false).trail cursor ++
          (ofCursor grammar recovery next).trail,
        (ofCursor grammar recovery next).left⟩ := by
  rw [ofCursor, dif_neg more]
  split
  · next found place same =>
    rw [ran] at same
    cases same
    rfl
  · next error place same =>
    rw [ran] at same
    cases same

/-- Behind a statement that was not read, the course ends or goes on where recovery stops. -/
theorem ofCursor_failed {error : Located} (more : cursor.rest ≠ [])
    (ran : (Statement.read grammar recovery).run cursor = ⟨faults, .failed error next⟩) :
    ofCursor grammar recovery cursor =
      if recovery = .abort then
        ⟨⟨[], faults ++ [error]⟩,
          ((Followed.statement grammar recovery).attempt recovery false).trail cursor, next⟩
      else
        ⟨(ofCursor grammar recovery (next.recover false)).reading.after (faults ++ [error]) [],
          ((Followed.statement grammar recovery).attempt recovery false).trail cursor ++
            (ofCursor grammar recovery (next.recover false)).trail,
          (ofCursor grammar recovery (next.recover false)).left⟩ := by
  rw [ofCursor, dif_neg more]
  split
  · next found place same =>
    rw [ran] at same
    cases same
  · next error place same =>
    rw [ran] at same
    cases same
    rfl

end Steps

/-- The course of a text answers what reading the text does. -/
theorem reading_ofCursor (grammar : Grammar α) (recovery : Recovery) (cursor : Cursor) :
    (ofCursor grammar recovery cursor).reading = Reading.ofCursor grammar recovery cursor := by
  induction measured : cursor.rest.length using Nat.strongRecOn generalizing cursor with
  | ind length ih =>
    by_cases ended : cursor.rest = []
    · rw [ofCursor_end ended, Reading.ofCursor_end ended]
    · cases ran : (Statement.read grammar recovery).run cursor with
      | mk faults outcome =>
        have taken := (Statement.progresses_read grammar recovery).length_lt ended ran
        cases outcome with
        | read statement next =>
          rw [ofCursor_read ended ran, Reading.ofCursor_read ended ran,
            ih _ (measured ▸ taken) next rfl]
        | failed error next =>
          rw [ofCursor_failed ended ran, Reading.ofCursor_failed ended ran]
          split
          · rfl
          · have shorter : (next.recover false).rest.length < length :=
              measured ▸ Nat.lt_of_le_of_lt (next.recover_suffix false).length_le taken
            rw [ih _ shorter (next.recover false) rfl]

end Course

end FormPatch
