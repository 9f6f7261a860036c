import FormPatch.Proofs.Guard.Answers
import FormPatch.Proofs.Statement.Written

/-!
# What trees that are read are made of

Whatever is read, clean or faulty, is made of expressions and guards that were read. A property of
statements that the reader's ways of making them keep holds of every statement of a tree: faults
cost statements, but what is left of a block or a chain keeps the property.

Main statement: a tree that is read from a text can be written and read back, since its guards are
readable and it lies no deeper than the reader allows.
-/

namespace FormPatch

open Syntax

variable {α : Type}

namespace Statement

/-- A property of statements where there is some room for chains that the reader keeps: an
expression has it when its payload has one property, and a chain when its guards have another one
and its blocks hold statements that have it in less room. -/
structure Kept (payload : α → Prop) (guard : Guard → Prop) (holds : Nat → Statement α → Prop) :
    Prop where
  /-- An expression has the property. -/
  expression {room : Nat} {value : α} (good : payload value) : holds room (.expression value)
  /-- A chain has the property. -/
  conditional {room : Nat} {asked : Guard} {body : List (Statement α)}
    {others : List (Guard × List (Statement α))} {last : Option (List (Statement α))}
    (good : guard asked) (inside : ∀ statement ∈ body, holds room statement)
    (branches : ∀ branch ∈ others, guard branch.1 ∧ ∀ statement ∈ branch.2, holds room statement)
    (ends : ∀ block ∈ last, ∀ statement ∈ block, holds room statement) :
    holds (room + 1) (.conditional asked body (.ofBranches others last))

section Readers

variable {places : Cursor → Prop} {payload : α → Prop} {guard : Guard → Prop}
  {good : Statement α → Prop} {holds : Nat → Statement α → Prop} {recovery : Recovery}
  {grammar : Grammar α} {statement : Tolerant (Statement α)} {progresses : statement.Progresses}
  {block : Tolerant (List (Statement α))}

/-- Attempts answer good statements when the reader of statements does. -/
theorem answers_attempt {inBlock : Bool} (answers : statement.AnswersFrom places good) :
    (attempt recovery inBlock statement).AnswersFrom places
      fun statements => ∀ statement ∈ statements, good statement := by
  intro cursor faults front after held ran
  simp only [attempt] at ran
  split at ran
  · next ahead first place found =>
    cases ran
    simpa using answers _ _ _ _ held found
  · next ahead error place found =>
    split at ran
    · cases ran
    · cases ran
      simp

variable [Cursor.Inherited places]

/-- What is read of a block has the property that its statements have. -/
theorem answers_body (answers : statement.AnswersFrom places good) :
    (body recovery statement progresses).AnswersFrom places
      fun statements => ∀ statement ∈ statements, good statement := by
  intro cursor
  induction size : cursor.rest.length using Nat.strongRecOn generalizing cursor with
  | ind length ih =>
    intro faults value after held ran
    have more := needsToken_body cursor faults value after ran
    by_cases closes : cursor.word = "\x7d"
    · rw [run_body_of_brace closes, Passage.mk.injEq, Outcome.read.injEq] at ran
      obtain ⟨_, rfl, _⟩ := ran
      simp
    · rw [run_body more closes] at ran
      obtain ⟨ahead, front, middle, behind, head, tail, rfl⟩ := Tolerant.bind_eq_read.1 ran
      obtain ⟨inner, others, last, none, rest, done, rfl⟩ := Tolerant.bind_eq_read.1 tail
      obtain ⟨joined, rfl⟩ := Tolerant.ofReader_eq_read.1 done
      obtain ⟨rfl, rfl⟩ := Reader.pure_eq_read.1 joined
      have shorter : middle.rest.length < length := size ▸ length_attempt_lt progresses more head
      have looked : places cursor.look := Cursor.Inherited.look held
      have first := answers_attempt answers _ _ _ _ looked head
      have later := ih _ shorter middle rfl _ _ _ (Tolerant.inherited_after looked head) rest
      exact List.forall_mem_append.2 ⟨first, later⟩

/-- A block answers good statements when the reader of statements does. -/
theorem answers_readBlock (answers : statement.AnswersFrom places good) :
    (readBlock recovery statement progresses).AnswersFrom places
      fun statements => ∀ statement ∈ statements, good statement :=
  .after fun _ => answers_body answers

/-- A branch answers a good guard and good statements when its parts are read so. -/
theorem answers_readBranch (guards : Guard.read.AnswersFrom places guard)
    (answers : block.AnswersFrom places fun statements => ∀ statement ∈ statements, good statement) :
    (readBranch block).AnswersFrom places fun branch =>
      guard branch.1 ∧ ∀ statement ∈ branch.2, good statement :=
  .after fun _ => (Tolerant.answers_ofReader guards).bind fun _ asked =>
    .after fun _ => answers.bind fun _ inside => Tolerant.answers_pure ⟨asked, inside⟩

/-- What stands behind an else is a good branch or holds good statements when its parts are read so.
-/
theorem answers_readElse (guards : Guard.read.AnswersFrom places guard)
    (answers : block.AnswersFrom places fun statements => ∀ statement ∈ statements, good statement) :
    (readElse block).AnswersFrom places fun branch => branch.elim
      (fun branch => guard branch.1 ∧ ∀ statement ∈ branch.2, good statement)
      fun statements => ∀ statement ∈ statements, good statement := by
  refine .after fun found => ?_
  cases found with
  | true => exact (answers_readBranch guards answers).bind fun _ held => Tolerant.answers_pure held
  | false => exact answers.bind fun _ held => Tolerant.answers_pure held

/-- A chain has a kept property, with room for one chain more, when the statements of its blocks
have it. -/
theorem answers_readChain (kept : Kept payload guard holds) {room : Nat}
    (guards : Guard.read.AnswersFrom places guard)
    (answers : block.AnswersFrom places fun statements =>
      ∀ statement ∈ statements, holds room statement) :
    (readChain block).AnswersFrom places (holds (room + 1)) := by
  refine .after fun _ => (answers_readBranch guards answers).bind fun branch first => ?_
  refine (Tolerant.answers_branches (answers_readElse guards answers)).bind fun found others => ?_
  exact Tolerant.answers_pure (kept.conditional first.1 first.2 others.1 others.2)

/-- A statement has a kept property when payloads and chains are read with theirs. -/
theorem answers_readWith (kept : Kept payload guard holds) {room : Nat}
    {chain : Tolerant (Statement α)} (payloads : grammar.read.AnswersFrom places payload)
    (chains : chain.AnswersFrom places (holds room)) :
    (readWith grammar chain).AnswersFrom places (holds room) := by
  intro cursor faults value after held ran
  have looked : places cursor.look := Cursor.Inherited.look held
  simp only [readWith] at ran
  split at ran
  · exact chains _ _ _ _ looked ran
  · cases read : grammar.read.run cursor.look with
    | failed error place => simp [read, Outcome.map] at ran
    | read found place =>
      rw [read, Outcome.map, Passage.mk.injEq, Outcome.read.injEq] at ran
      obtain ⟨_, rfl, _⟩ := ran
      exact kept.expression (payloads _ _ _ looked read)

/-- However much room there is, a statement that is read has a property that the reader keeps. -/
theorem answers_readNested (kept : Kept payload guard holds)
    (payloads : grammar.read.AnswersFrom places payload)
    (guards : Guard.read.AnswersFrom places guard) (recovery : Recovery) (room : Nat) :
    (readNested grammar recovery room).1.AnswersFrom places (holds room) := by
  induction room with
  | zero =>
    refine answers_readWith kept payloads ?_
    intro cursor faults value after _ ran
    exact absurd ran readTooDeep_ne_read
  | succ room ih =>
    exact answers_readWith kept payloads
      (answers_readChain kept guards (answers_readBlock ih))

/-- Each statement of a reading has a property that the reader keeps. -/
theorem forall_mem_ofCursor (kept : Kept payload guard holds)
    (payloads : grammar.read.AnswersFrom places payload)
    (guards : Guard.read.AnswersFrom places guard) (recovery : Recovery) (cursor : Cursor)
    (held : places cursor) :
    ∀ statement ∈ (Reading.ofCursor grammar recovery cursor).statements,
      holds Guard.mostNesting statement := by
  induction measured : cursor.rest.length using Nat.strongRecOn generalizing cursor with
  | ind length ih =>
    by_cases ended : cursor.rest = []
    · simp [Reading.ofCursor_end ended]
    · cases ran : (Statement.read grammar recovery).run cursor with
      | mk faults outcome =>
        have taken := (Statement.progresses_read grammar recovery).length_lt ended ran
        have left : places outcome.cursor := by
          have kept := Tolerant.inherited_cursor (Statement.read grammar recovery) held
          rwa [ran] at kept
        cases outcome with
        | read statement next =>
          rw [Reading.ofCursor_read ended ran]
          have first := answers_readNested kept payloads guards recovery _ _ _ _ _ held ran
          exact List.forall_mem_cons.2 ⟨first, ih _ (measured ▸ taken) next left rfl⟩
        | failed error next =>
          rw [Reading.ofCursor_failed ended ran]
          split
          · simp
          · have kept := next.recover_suffix false
            have shorter : (next.recover false).rest.length < length :=
              measured ▸ Nat.lt_of_le_of_lt kept.length_le taken
            exact ih _ shorter _ (Cursor.Inherited.of_suffix left kept) rfl

end Readers

section Parts

variable {payload : α → Prop} {guard : Guard → Prop}

/-- The payloads of statements are those of each statement. -/
theorem forall_mem_payloadsAll {statements : List (Statement α)} :
    (∀ value ∈ payloadsAll statements, payload value) ↔
      ∀ statement ∈ statements, ∀ value ∈ statement.payloads, payload value := by
  induction statements with
  | nil => simp [payloadsAll]
  | cons statement others ih => rw [payloadsAll, List.forall_mem_append, ih, List.forall_mem_cons]

/-- The guards of statements are those of each statement. -/
theorem forall_mem_guardsAll {statements : List (Statement α)} :
    (∀ asked ∈ guardsAll statements, guard asked) ↔
      ∀ statement ∈ statements, ∀ asked ∈ statement.guards, guard asked := by
  induction statements with
  | nil => simp [guardsAll]
  | cons statement others ih => rw [guardsAll, List.forall_mem_append, ih, List.forall_mem_cons]

/-- The reader makes a statement whose parts have some properties from such parts. -/
theorem kept_parts : Kept payload guard fun _ statement =>
    (∀ value ∈ statement.payloads, payload value) ∧ ∀ asked ∈ statement.guards, guard asked where
  expression good := by simpa [Statement.payloads, guards] using good
  conditional := by
    intro room asked body others last good inside branches ends
    have whole (statements : List (Statement α))
        (held : ∀ statement ∈ statements, (∀ value ∈ statement.payloads, payload value) ∧
          ∀ asked ∈ statement.guards, guard asked) :
        (∀ value ∈ payloadsAll statements, payload value) ∧
          ∀ asked ∈ guardsAll statements, guard asked := by
      rw [forall_mem_payloadsAll, forall_mem_guardsAll]
      exact ⟨fun statement member => (held statement member).1,
        fun statement member => (held statement member).2⟩
    have behind : (∀ value ∈ (Otherwise.ofBranches others last).payloads, payload value) ∧
        ∀ asked ∈ (Otherwise.ofBranches others last).guards, guard asked := by
      induction others with
      | nil =>
        cases last with
        | none => simp [Otherwise.ofBranches, Otherwise.payloads, Otherwise.guards]
        | some block => exact whole block (ends block rfl)
      | cons branch others ih =>
        obtain ⟨⟨asked, held⟩, later⟩ := List.forall_mem_cons.1 branches
        have first := whole branch.2 held
        have rest := ih later
        exact ⟨List.forall_mem_append.2 ⟨first.1, rest.1⟩,
          List.forall_mem_cons.2 ⟨asked, List.forall_mem_append.2 ⟨first.2, rest.2⟩⟩⟩
    have first := whole body inside
    exact ⟨List.forall_mem_append.2 ⟨first.1, behind.1⟩,
      List.forall_mem_cons.2 ⟨good, List.forall_mem_append.2 ⟨first.2, behind.2⟩⟩⟩

end Parts

section Writable

variable {good : α → Prop} {room : Nat}

/-- Where there are no statements, all of them fit. -/
theorem allFit_nil : AllFit good room [] :=
  ⟨by simp [payloadsAll], by simp [guardsAll], by simp [heightAll]⟩

/-- Statements can be written together when each can. -/
theorem allFit_iff {statements : List (Statement α)} :
    AllFit good room statements ↔ ∀ statement ∈ statements, Fits good room statement := by
  induction statements with
  | nil => simp [allFit_nil]
  | cons statement others ih =>
    rw [List.forall_mem_cons, ← ih]
    exact Writable.append_iff

/-- The reader makes statements that can be written from those that can. -/
theorem kept_fits : Kept good Guard.IsReadable (Fits good) where
  expression written :=
    ⟨by simpa [Statement.payloads] using written, by simp [guards], by simp [height]⟩
  conditional := by
    intro room asked body others last readable inside branches ends
    have behind : (Otherwise.ofBranches others last).Fits good room := by
      induction others with
      | nil =>
        cases last with
        | none => exact allFit_nil
        | some block => exact allFit_iff.2 (ends block rfl)
      | cons branch others ih =>
        obtain ⟨⟨first, held⟩, later⟩ := List.forall_mem_cons.1 branches
        exact Writable.cons_iff.2 ⟨first, Writable.append_iff.2 ⟨allFit_iff.2 held, ih later⟩⟩
    obtain ⟨payloads, guards, height⟩ :=
      Writable.cons_iff.2 ⟨readable, Writable.append_iff.2 ⟨allFit_iff.2 inside, behind⟩⟩
    exact ⟨payloads, guards, Nat.succ_le_succ height⟩

end Writable

end Statement

/-- The tree that is read from a text can be written when the expressions that are read can. -/
theorem Reading.isWritable_ofText {grammar : Grammar α} {good : α → Prop}
    (payloads : grammar.read.Answers good) (recovery : Recovery) (source : String) :
    Statement.IsWritable good (ofText grammar recovery source).statements :=
  Statement.allFit_iff.2 (Statement.forall_mem_ofCursor Statement.kept_fits payloads
    Guard.answers_read recovery (.ofText source) (Cursor.isLexed_ofText source))

end FormPatch
