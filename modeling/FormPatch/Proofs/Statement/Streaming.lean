import FormPatch.Proofs.Guard.Streaming
import FormPatch.Proofs.Syntax.Branches
import FormPatch.Statement.Reader

/-!
# Statements in texts that go on

Recovery, blocks, chains and statements stream when the expressions of the grammar do. A
statement that was read stands before any text that does not start with `else`: a chain of blocks
looks one word too far.
-/

namespace FormPatch

open Syntax Syntax.Tolerant

variable {α : Type}

/-- A grammar streams when its expressions do, and each of them costs a token and stands. -/
structure Grammar.Streams (grammar : Grammar α) : Prop where
  /-- The reader of expressions streams. -/
  read : grammar.read.Streams
  /-- An expression that was read stands. -/
  stands : ∀ later, grammar.read.StandsBefore later
  /-- An expression costs a token. -/
  advances : grammar.read.Advances

namespace Syntax.Cursor

/-- Skipping streams. -/
theorem skipFrom_extend (inBlock : Bool) (depth : Nat) (tokens : List Token) (shown : Position)
    (later : List Token) :
    skipFrom inBlock depth (tokens ++ later) shown =
        (skipFrom inBlock depth tokens shown).extend later ∨
      (skipFrom inBlock depth tokens shown).rest = [] ∧
        (skipFrom inBlock depth (tokens ++ later) shown).rest <:+ later := by
  fun_induction skipFrom inBlock depth tokens shown with
  | case1 depth shown => exact .inr ⟨rfl, skipFrom_suffix _ _ _ _⟩
  | case2 token rest shown stops => simp [skipFrom, stops, extend]
  | case3 token rest shown inside opens ih => simpa [skipFrom, opens] using ih
  | case4 token rest shown inside _ ends => simp [skipFrom, ends, extend]
  | case5 token rest shown inside opens ends ih => simpa [skipFrom, inside, opens, ends] using ih
  | case6 depth token rest shown closes after ends =>
    -- The word behind the block decides, so the text must go on behind the block.
    by_cases ended : rest = []
    · right
      refine ⟨by simp [after, ended], ?_⟩
      simp only [ended, List.nil_append, List.cons_append, skipFrom, closes, ↓reduceIte]
      split
      · simp
      · exact skipFrom_suffix _ _ _ _
    · left
      have same : (after.extend later).word = after.word := word_extend ended later
      have looked : (after.extend later).look = after.look.extend later := look_extend ended later
      simp only [List.cons_append, skipFrom, closes, ↓reduceIte]
      have stops : depth = 0 ∧ (after.extend later).word ≠ "else" := by rwa [same]
      rw [← looked]
      exact if_pos stops
  | case7 depth token rest shown closes after goes ih =>
    by_cases ended : rest = []
    · right
      subst ended
      refine ⟨by simp [skipFrom], ?_⟩
      simp only [List.nil_append, List.cons_append, skipFrom, closes, ↓reduceIte]
      split
      · simp
      · exact skipFrom_suffix _ _ _ _
    · have same : (after.extend later).word = after.word := word_extend ended later
      have on : ¬ (depth = 0 ∧ (after.extend later).word ≠ "else") := by rwa [same]
      have step : skipFrom inBlock (depth + 1) (token :: rest ++ later) shown =
          skipFrom inBlock depth (rest ++ later) token.position := by
        simp only [List.cons_append, skipFrom, closes, ↓reduceIte]
        exact if_neg on
      rw [step]
      exact ih
  | case8 depth token rest shown inside opens ih => simpa [skipFrom, opens] using ih
  | case9 depth token rest shown inside opens ih => simpa [skipFrom, inside, opens] using ih

/-- Recovery streams. -/
theorem recover_extend (inBlock : Bool) (cursor : Cursor) (later : List Token) :
    (cursor.extend later).recover inBlock = (cursor.recover inBlock).extend later ∨
      (cursor.recover inBlock).rest = [] ∧
        ((cursor.extend later).recover inBlock).rest <:+ later :=
  skipFrom_extend inBlock 0 cursor.rest cursor.shown later

end Syntax.Cursor

namespace Statement

/-- Reads a statement or comes over its fault, which leaves no statement. -/
def attempt (recovery : Recovery) (inBlock : Bool) (statement : Tolerant (Statement α)) :
    Tolerant (List (Statement α)) where
  run cursor :=
    match statement.run cursor with
    | ⟨faults, .read first after⟩ => ⟨faults, .read [first] after⟩
    | ⟨faults, .failed error after⟩ =>
      if recovery = .abort then ⟨faults, .failed error after⟩
      else ⟨faults ++ [error], .read [] (after.recover inBlock)⟩
  suffix cursor := by
    have taken := statement.suffix cursor
    split
    · next faults first after ran => simpa [ran] using taken
    · next faults error after ran =>
      rw [ran] at taken
      split
      · exact taken
      · exact (after.recover_suffix inBlock).trans taken

/-- Reads the statements of a block whose opening brace has been taken, and its closing brace. -/
def body (recovery : Recovery) (statement : Tolerant (Statement α))
    (progresses : statement.Progresses) : Tolerant (List (Statement α)) :=
  ⟨runBody recovery statement progresses, runBody_suffix recovery statement progresses⟩

/-- Within a block, a statement is attempted and then the rest of the block is read. -/
theorem run_body {recovery : Recovery} {statement : Tolerant (Statement α)}
    {progresses : statement.Progresses} {cursor : Cursor} (more : cursor.rest ≠ [])
    (inside : cursor.word ≠ "\x7d") :
    (body recovery statement progresses).run cursor =
      (attempt recovery true statement >>= fun front =>
        body recovery statement progresses >>= fun others => pure (front ++ others)).run
          cursor.look := by
  show runBody recovery statement progresses cursor = _
  rw [runBody, dif_neg more, if_neg inside, Tolerant.run_bind]
  simp only [attempt]
  split
  · next faults first after ran =>
    simp only [ran, Tolerant.run_bind]
    cases rest : runBody recovery statement progresses after with
    | mk others outcome =>
      cases outcome <;>
        simp [body, rest, Passage.behind, Passage.map, Outcome.map, pure, Tolerant.ofReader,
          Reader.answer]
  · next faults error after ran =>
    simp only [ran]
    split
    · rfl
    · simp only [Tolerant.run_bind]
      cases rest : runBody recovery statement progresses (after.recover true) with
      | mk others outcome =>
        cases outcome <;>
          simp [body, rest, Passage.behind, pure, Tolerant.ofReader, Reader.answer]

/-- An attempt leaves no more than the statement does. -/
theorem attempt_suffix (recovery : Recovery) (inBlock : Bool) (statement : Tolerant (Statement α))
    (cursor : Cursor) : ((attempt recovery inBlock statement).run cursor).cursor.rest <:+
      (statement.run cursor).cursor.rest := by
  simp only [attempt]
  split
  · next faults first after ran =>
    rw [ran]
    exact List.suffix_rfl
  · next faults error after ran =>
    rw [ran]
    split
    · exact List.suffix_rfl
    · exact after.recover_suffix inBlock

/-- Where a fault ends reading, an attempt answers what the statement does. -/
theorem attempt_eq_read {inBlock : Bool} {statement : Tolerant (Statement α)}
    {cursor after : Cursor} {faults : List Located} {front : List (Statement α)}
    (ran : (attempt .abort inBlock statement).run cursor = ⟨faults, .read front after⟩) :
    ∃ first, statement.run cursor = ⟨faults, .read first after⟩ ∧ front = [first] := by
  simp only [attempt] at ran
  split at ran
  · next ahead first place found =>
    cases ran
    exact ⟨first, found, rfl⟩
  · next ahead error place found =>
    rw [if_pos trivial] at ran
    cases ran

/-- An attempt streams when the statement does. -/
theorem streams_attempt (recovery : Recovery) (inBlock : Bool) {statement : Tolerant (Statement α)}
    (streams : statement.Streams) : (attempt recovery inBlock statement).Streams := by
  intro cursor later
  rcases streams cursor later with same | ⟨ended, behind⟩
  · simp only [attempt, same]
    cases ran : statement.run cursor with
    | mk faults outcome =>
      cases outcome with
      | read first after => exact .inl rfl
      | failed error after =>
        simp only [Passage.extend, Outcome.extend]
        split
        · exact .inl rfl
        · rcases after.recover_extend inBlock later with same | past
          · left
            rw [same]
          · exact .inr past
  · right
    constructor
    · have left := attempt_suffix recovery inBlock statement cursor
      rw [ended] at left
      exact List.suffix_nil.1 left
    · exact (attempt_suffix recovery inBlock statement (cursor.extend later)).trans behind

/-- An attempt takes a token when the statement does. -/
theorem progresses_attempt (recovery : Recovery) (inBlock : Bool)
    {statement : Tolerant (Statement α)} (progresses : statement.Progresses) :
    (attempt recovery inBlock statement).Progresses := by
  intro cursor more
  have left := (attempt_suffix recovery inBlock statement cursor).length_le
  have taken := progresses cursor more
  omega

/-- An attempt behind a look at the next word leaves fewer tokens. -/
theorem length_attempt_lt {recovery : Recovery} {inBlock : Bool}
    {statement : Tolerant (Statement α)} (progresses : statement.Progresses)
    {cursor after : Cursor} {faults : List Located} {front : List (Statement α)}
    (more : cursor.rest ≠ [])
    (ran : (attempt recovery inBlock statement).run cursor.look = ⟨faults, .read front after⟩) :
    after.rest.length < cursor.rest.length := by
  have ahead : cursor.look.rest ≠ [] := by rwa [Cursor.rest_look]
  have fewer := (progresses_attempt recovery inBlock progresses).length_lt ahead ran
  rwa [Cursor.rest_look] at fewer

section Body

variable {recovery : Recovery} {statement : Tolerant (Statement α)}
  {progresses : statement.Progresses}

/-- A closing brace ends a block. -/
theorem run_body_of_brace {cursor : Cursor} (closes : cursor.word = "\x7d") :
    (body recovery statement progresses).run cursor = ⟨[], .read [] cursor.take⟩ := by
  have more := Cursor.rest_ne_nil_of_word (by decide) closes
  show runBody recovery statement progresses cursor = _
  rw [runBody, dif_neg more, if_pos closes]

/-- A block does not end with its text. -/
theorem run_body_of_end {cursor : Cursor} (ended : cursor.rest = []) :
    (body recovery statement progresses).run cursor =
      ⟨[], .failed ⟨.expected "\x7d" "", cursor.shown⟩ cursor⟩ := by
  show runBody recovery statement progresses cursor = _
  rw [runBody, dif_pos ended]

/-- A block that was read had its closing brace. -/
theorem needsToken_body : (body recovery statement progresses).NeedsToken := by
  intro cursor faults value after ran ended
  rw [run_body_of_end ended] at ran
  simp at ran

/-- A block streams when its statements do. -/
theorem streams_body (streams : statement.Streams) :
    (body recovery statement progresses).Streams := by
  intro cursor
  induction size : cursor.rest.length using Nat.strongRecOn generalizing cursor with
  | ind length ih =>
    by_cases ended : cursor.rest = []
    · exact streamsAt_end _ ended
    · intro later
      have longer : (cursor.extend later).rest ≠ [] := by simp [ended]
      have same := Cursor.word_extend ended later
      by_cases closes : cursor.word = "\x7d"
      · left
        rw [run_body_of_brace closes, run_body_of_brace (by rwa [same]), Cursor.take_extend ended]
        rfl
      · rw [run_body ended closes, run_body longer (by rwa [same]), Cursor.look_extend ended]
        refine (streams_attempt recovery true streams cursor.look).bind ?_ later
        intro faults front after ran
        have shorter : after.rest.length < length := size ▸ length_attempt_lt progresses ended ran
        exact (ih _ shorter after rfl).bind fun _ others _ _ => streams_pure (front ++ others) _

/-- A block that was read stands: its last token is the closing brace. -/
theorem standsBefore_body (streams : statement.Streams) (later : List Token) :
    (body recovery statement progresses).StandsBefore later := by
  intro cursor
  induction size : cursor.rest.length using Nat.strongRecOn generalizing cursor with
  | ind length ih =>
    intro faults value after ran
    have more := needsToken_body cursor faults value after ran
    have same := Cursor.word_extend more later
    by_cases closes : cursor.word = "\x7d"
    · rw [run_body_of_brace closes, Passage.mk.injEq, Outcome.read.injEq] at ran
      obtain ⟨rfl, rfl, rfl⟩ := ran
      rw [run_body_of_brace (by rwa [same]), Cursor.take_extend more]
    · have longer : (cursor.extend later).rest ≠ [] := by simp [more]
      rw [run_body more closes] at ran
      rw [run_body longer (by rwa [same]), Cursor.look_extend more]
      obtain ⟨ahead, front, middle, behind, head, tail, rfl⟩ := bind_eq_read.1 ran
      obtain ⟨inner, others, last, none, rest, done, rfl⟩ := bind_eq_read.1 tail
      obtain ⟨joined, rfl⟩ := ofReader_eq_read.1 done
      obtain ⟨rfl, rfl⟩ := Reader.pure_eq_read.1 joined
      have left := needsToken_body middle inner others last rest
      have head' : (attempt recovery true statement).run (cursor.look.extend later) =
          ⟨ahead, .read front (middle.extend later)⟩ := by
        have streamed := (streams_attempt recovery true streams cursor.look).run_extend
          (by rwa [head]) later
        rwa [head] at streamed
      have shorter : middle.rest.length < length := size ▸ length_attempt_lt progresses more head
      have rest' := ih _ shorter middle rfl inner others last rest
      exact bind_eq_read.2 ⟨ahead, front, _, _, head',
        bind_eq_read.2 ⟨inner, others, _, _, rest', rfl, rfl⟩, rfl⟩

/-- A block streams when its statements do. -/
theorem streams_readBlock (streams : statement.Streams) :
    (readBlock recovery statement progresses).Streams :=
  (streams_ofReader (Reader.streams_expect "\x7b")).bind fun _ => streams_body streams

/-- A block that was read stands. -/
theorem standsBefore_readBlock (streams : statement.Streams) (later : List Token) :
    (readBlock recovery statement progresses).StandsBefore later :=
  (standsBefore_ofReader (Reader.standsBefore_expect later (by decide))).bind fun _ =>
    standsBefore_body streams later

/-- A block needs a token. -/
theorem needsToken_readBlock : (readBlock recovery statement progresses).NeedsToken :=
  (needsToken_ofReader (Reader.advances_expect (by decide))).bind _

end Body

section Chain

variable {block : Tolerant (List (Statement α))}

/-- A branch streams when its block does. -/
theorem streams_readBranch (streams : block.Streams) : (readBranch block).Streams :=
  (streams_ofReader (Reader.streams_expect "(")).bind fun _ =>
    (streams_ofReader Guard.streams_read).bind fun _ =>
      (streams_ofReader (Reader.streams_expect ")")).bind fun _ =>
        streams.bind fun _ => streams_pure _

/-- A guard is followed by its closing parenthesis, so a guarded block stands when the block
does. -/
theorem standsBefore_readBranch {later : List Token} (stands : block.StandsBefore later) :
    (readBranch block).StandsBefore later := by
  refine (standsBefore_ofReader (Reader.standsBefore_expect later (by decide))).bind fun _ => ?_
  refine StandsBefore.after (streams_ofReader Guard.streams_read) ?_ ?_
  · intro guard
    refine (standsBefore_ofReader (Reader.standsBefore_expect later (by decide))).bind fun _ => ?_
    exact stands.bind fun _ => standsBefore_pure later _
  · intro guard
    exact (needsToken_ofReader (Reader.advances_expect (by decide))).bind _

/-- A branch needs a token. -/
theorem needsToken_readBranch : (readBranch block).NeedsToken :=
  (needsToken_ofReader (Reader.advances_expect (by decide))).bind _

/-- What stands behind an else streams when the block there does. -/
theorem streams_readElse (streams : block.Streams) : (readElse block).Streams := by
  refine (streams_ofReader (Reader.streams_accept "if")).bind fun found => ?_
  cases found with
  | true => exact (streams_readBranch streams).bind fun _ => streams_pure _
  | false => exact streams.bind fun _ => streams_pure _

/-- What stands behind an else stands before a text when the block there does. -/
theorem standsBefore_readElse {later : List Token} (stands : block.StandsBefore later)
    (needs : block.NeedsToken) : (readElse block).StandsBefore later := by
  refine StandsBefore.after (streams_ofReader (Reader.streams_accept "if")) ?_ ?_
  · intro found
    cases found with
    | true => exact (standsBefore_readBranch stands).bind fun _ => standsBefore_pure later _
    | false => exact stands.bind fun _ => standsBefore_pure later _
  · intro found
    cases found with
    | true => exact needsToken_readBranch.bind _
    | false => exact needs.bind _

/-- A chain streams when its blocks do. -/
theorem streams_readChain (streams : block.Streams) : (readChain block).Streams := by
  refine (streams_ofReader (Reader.streams_expect "if")).bind fun _ => ?_
  refine (streams_readBranch streams).bind fun branch => ?_
  exact (streams_branches (streams_readElse streams)).bind fun _ => streams_pure _

/-- A chain that was read holds when the text does not go on with another block of it. -/
theorem holdsBefore_readChain {later : List Token} (stands : block.StandsBefore later)
    (needs : block.NeedsToken) (apart : ¬StartsWith "else" later) :
    (readChain block).HoldsBefore later := by
  refine HoldsBefore.after (standsBefore_ofReader
    (Reader.standsBefore_expect later (by decide))) fun _ => ?_
  refine HoldsBefore.after (standsBefore_readBranch stands) fun branch => ?_
  exact (branches_holdsBefore (standsBefore_readElse stands needs) apart).map _

end Chain

section Nested

variable {grammar : Grammar α}

/-- Statements stream when the expressions and the chains do. -/
theorem streams_readWith (streams : grammar.Streams) {chain : Tolerant (Statement α)}
    (chained : chain.Streams) : (readWith grammar chain).Streams := by
  intro cursor
  by_cases ended : cursor.rest = []
  · exact streamsAt_end _ ended
  · intro later
    have same := Cursor.word_extend ended later
    have looked := Cursor.look_extend ended later
    by_cases starts : cursor.word = "if"
    · simp only [readWith, same, looked, if_pos starts]
      exact chained cursor.look later
    · simp only [readWith, same, looked, if_neg starts]
      rcases streams.read cursor.look later with unchanged | past
      · left
        rw [unchanged, Outcome.map_extend]
        rfl
      · right
        simpa using past

/-- A statement that was read holds when a chain does. -/
theorem holdsBefore_readWith (streams : grammar.Streams) {chain : Tolerant (Statement α)}
    {later : List Token} (holds : chain.HoldsBefore later) :
    (readWith grammar chain).HoldsBefore later := by
  intro cursor faults value after ran
  by_cases starts : cursor.word = "if"
  · have more := Cursor.rest_ne_nil_of_word (by decide) starts
    have same := Cursor.word_extend more later
    have looked := Cursor.look_extend more later
    simp only [readWith, if_pos starts] at ran
    obtain ⟨shown, ran'⟩ := holds cursor.look faults value after ran
    refine ⟨shown, ?_⟩
    simp only [readWith, same, looked, if_pos starts]
    exact ran'
  · simp only [readWith, if_neg starts, Passage.mk.injEq] at ran
    obtain ⟨rfl, mapped⟩ := ran
    cases found : grammar.read.run cursor.look with
    | failed error place => simp [found, Outcome.map] at mapped
    | read expression place =>
      simp only [found, Outcome.map, Outcome.read.injEq] at mapped
      obtain ⟨rfl, rfl⟩ := mapped
      have more : cursor.rest ≠ [] := by
        intro ended
        have shorter := streams.advances cursor.look expression place found
        simp [ended] at shorter
      have same := Cursor.word_extend more later
      have looked := Cursor.look_extend more later
      refine ⟨place.shown, ?_⟩
      simp only [readWith, same, looked, if_neg starts,
        streams.stands later cursor.look expression place found]
      rfl

/-- A chain that is too deep streams. -/
theorem streams_readTooDeep : (readTooDeep : Tolerant (Statement α)).Streams :=
  streams_ofReader ((Reader.streams_expect "if").bind fun _ => Reader.streams_fail _)

/-- Where no room is left, no chain is read. -/
theorem readTooDeep_ne_read {cursor after : Cursor} {faults : List Located}
    {value : Statement α} : readTooDeep.run cursor ≠ ⟨faults, .read value after⟩ := by
  intro ran
  obtain ⟨read, _⟩ := ofReader_eq_read.1 ran
  obtain ⟨_, middle, _, failed⟩ := Reader.bind_eq_read.1 read
  exact Reader.fail_ne_read failed

/-- However deep blocks may lie, statements stream. -/
theorem streams_readNested (streams : grammar.Streams) (recovery : Recovery) (room : Nat) :
    (readNested grammar recovery room).1.Streams := by
  induction room with
  | zero => exact streams_readWith streams streams_readTooDeep
  | succ room ih => exact streams_readWith streams (streams_readChain (streams_readBlock ih))

/-- However deep blocks may lie, a statement that was read holds before a text that does not
start with `else`. -/
theorem holdsBefore_readNested (streams : grammar.Streams) (recovery : Recovery) (room : Nat)
    {later : List Token} (apart : ¬StartsWith "else" later) :
    (readNested grammar recovery room).1.HoldsBefore later := by
  cases room with
  | zero =>
    apply holdsBefore_readWith streams
    intro cursor faults value after ran
    exact absurd ran readTooDeep_ne_read
  | succ room =>
    have inner := streams_readNested streams recovery room
    exact holdsBefore_readWith streams
      (holdsBefore_readChain (standsBefore_readBlock inner later) needsToken_readBlock apart)

/-- A statement is a chain or an expression. -/
theorem read_eq (grammar : Grammar α) (recovery : Recovery) :
    ∃ room, read grammar recovery =
      readWith grammar (readChain (readBlock recovery (readNested grammar recovery room).1
        (readNested grammar recovery room).2)) :=
  ⟨63, rfl⟩

/-- Statements stream when the expressions of the grammar do. -/
theorem streams_read (streams : grammar.Streams) (recovery : Recovery) :
    (read grammar recovery).Streams :=
  streams_readNested streams recovery Guard.mostNesting

/-- A statement that was read holds before a text that does not start with `else`. -/
theorem holdsBefore_read (streams : grammar.Streams) (recovery : Recovery) {later : List Token}
    (apart : ¬StartsWith "else" later) : (read grammar recovery).HoldsBefore later :=
  holdsBefore_readNested streams recovery Guard.mostNesting apart

end Nested

end Statement

end FormPatch
