import FormPatch.Proofs.Statement.Reading
import FormPatch.Proofs.Syntax.Mirroring

/-!
# The layout of a text

Reading keeps neither the places where expressions start nor the stretches that recovery skips. The
layout of a text keeps both: it is read by the same readers, over expressions that know their place,
and each attempt that fails leaves a gap in the stead of a statement. Without gaps and places, the
layout of a text is what is read from it.
-/

namespace FormPatch

open Syntax Syntax.Tolerant

variable {α β : Type}

/-- What a layout has in the place of an expression. -/
inductive Mark (α : Type) where
  /-- An expression and the text from its first token on. -/
  | expression (payload : α) (rest : List Token)
  /-- The tokens of an attempt that failed, with those that recovery skipped. -/
  | gap (tokens : List Token)
deriving DecidableEq

/-- The expression at a mark, if it is not a gap. -/
def Mark.payload? : Mark α → Option α
  | expression payload _ => some payload
  | gap _ => none

/-- The tokens in front of the rest of a text. -/
def inFront (tokens rest : List Token) : List Token :=
  tokens.take (tokens.length - rest.length)

/-- The tokens in front of the rest of a text, and the rest, are the text. -/
theorem inFront_append {tokens rest : List Token} (ends : rest <:+ tokens) :
    inFront tokens rest ++ rest = tokens := by
  obtain ⟨front, rfl⟩ := ends
  have length : (front ++ rest).length - rest.length = front.length := by
    rw [List.length_append, Nat.add_sub_cancel]
  rw [inFront, length, List.take_left]

mutual

/-- The statement over those expressions that a choice keeps. -/
def Statement.keep (choice : β → Option α) : Statement β → List (Statement α)
  | .expression payload => (choice payload).toList.map .expression
  | .conditional guard body otherwise =>
    [.conditional guard (Statement.keepAll choice body) (Otherwise.keep choice otherwise)]

/-- The statements over those expressions that a choice keeps. -/
def Statement.keepAll (choice : β → Option α) : List (Statement β) → List (Statement α)
  | [] => []
  | statement :: statements =>
    Statement.keep choice statement ++ Statement.keepAll choice statements

/-- The chain over those expressions that a choice keeps. -/
def Otherwise.keep (choice : β → Option α) : Otherwise β → Otherwise α
  | .nothing => .nothing
  | .block body => .block (Statement.keepAll choice body)
  | .branch guard body otherwise =>
    .branch guard (Statement.keepAll choice body) (Otherwise.keep choice otherwise)

end

mutual

/-- The expressions of a statement in order, with the number of blocks around each of them. -/
def Statement.nested (depth : Nat) : Statement β → List (Nat × β)
  | .expression payload => [(depth, payload)]
  | .conditional _ body otherwise =>
    Statement.nestedAll (depth + 1) body ++ Otherwise.nested depth otherwise

/-- The expressions of some statements in order, with the number of blocks around each of them. -/
def Statement.nestedAll (depth : Nat) : List (Statement β) → List (Nat × β)
  | [] => []
  | statement :: statements =>
    Statement.nested depth statement ++ Statement.nestedAll depth statements

/-- The expressions of a chain in order, with the number of blocks around each of them. -/
def Otherwise.nested (depth : Nat) : Otherwise β → List (Nat × β)
  | .nothing => []
  | .block body => Statement.nestedAll (depth + 1) body
  | .branch _ body otherwise =>
    Statement.nestedAll (depth + 1) body ++ Otherwise.nested depth otherwise

end

section Keep

variable {choice : β → Option α}

/-- Choosing among statements keeps those in front and those behind. -/
theorem Statement.keepAll_append (front behind : List (Statement β)) :
    Statement.keepAll choice (front ++ behind) =
      Statement.keepAll choice front ++ Statement.keepAll choice behind := by
  induction front with
  | nil => rfl
  | cons statement front ih =>
    simp only [List.cons_append, Statement.keepAll, ih, List.append_assoc]

/-- The expressions of statements are those in front and those behind. -/
theorem Statement.nestedAll_append (depth : Nat) (front behind : List (Statement β)) :
    Statement.nestedAll depth (front ++ behind) =
      Statement.nestedAll depth front ++ Statement.nestedAll depth behind := by
  induction front with
  | nil => rfl
  | cons statement front ih =>
    simp only [List.cons_append, Statement.nestedAll, ih, List.append_assoc]

/-- A chain keeps the expressions of its blocks. -/
theorem Otherwise.keep_ofBranches (others : List (Guard × List (Statement β)))
    (last : Option (List (Statement β))) :
    Otherwise.keep choice (.ofBranches others last) =
      .ofBranches (others.map fun branch => (branch.1, Statement.keepAll choice branch.2))
        (last.map (Statement.keepAll choice)) := by
  induction others with
  | nil => cases last <;> rfl
  | cons branch others ih =>
    obtain ⟨guard, body⟩ := branch
    simp only [Otherwise.ofBranches, Otherwise.keep, ih, List.map_cons]

end Keep

/-- The grammar that also answers where each of its expressions starts. -/
def Grammar.marked (grammar : Grammar α) : Grammar (Mark α) where
  read :=
    { run := fun cursor => (grammar.read.run cursor).map (.expression · cursor.rest)
      suffix := fun cursor => by simpa using grammar.read.suffix cursor }
  progresses cursor more := by simpa using grammar.progresses cursor more
  write level mark := (mark.payload?.map (grammar.write level)).getD ""

namespace Statement

/-- A statement, or the gap that a failed attempt to read one leaves, and the cursor behind it. -/
def settle (inBlock : Bool) (statement : Tolerant (Statement (Mark α))) (cursor : Cursor) :
    Statement (Mark α) × Cursor :=
  match (statement.run cursor).outcome with
  | .read first after => (first, after)
  | .failed _ after =>
    (.expression (.gap (inFront cursor.rest (after.recover inBlock).rest)), after.recover inBlock)

/-- Settling an attempt only takes tokens. -/
theorem settle_suffix (inBlock : Bool) (statement : Tolerant (Statement (Mark α)))
    (cursor : Cursor) :
    (settle inBlock statement cursor).2.rest <:+ (statement.run cursor).cursor.rest := by
  simp only [settle, Passage.cursor]
  split
  · next first after ran =>
    rw [ran]
    exact List.suffix_rfl
  · next error after ran =>
    rw [ran]
    exact after.recover_suffix inBlock

/-- Reads a statement or the gap that a failed attempt leaves. -/
def readOrGap (inBlock : Bool) (statement : Tolerant (Statement (Mark α))) :
    Tolerant (Statement (Mark α)) where
  run cursor :=
    ⟨[], .read (settle inBlock statement cursor).1 (settle inBlock statement cursor).2⟩
  suffix cursor := (settle_suffix inBlock statement cursor).trans (statement.suffix cursor)

/-- Reading a statement or the gap of a failed attempt makes progress. -/
theorem progresses_readOrGap (inBlock : Bool) {statement : Tolerant (Statement (Mark α))}
    (progresses : statement.Progresses) : (readOrGap inBlock statement).Progresses := by
  intro cursor more
  have left := (settle_suffix inBlock statement cursor).length_le
  have taken := progresses cursor more
  exact Nat.lt_of_le_of_lt left taken

/-- Reads a statement in which blocks may lie as deep as the room allows, with its places and
gaps. -/
def readMarked (grammar : Grammar α) :
    Nat → { reader : Tolerant (Statement (Mark α)) // reader.Progresses }
  | 0 =>
    ⟨readWith grammar.marked readTooDeep,
      progresses_readWith grammar.marked ((Reader.progresses_expect "if").bind _)⟩
  | room + 1 =>
    let inner := readMarked grammar room
    ⟨readWith grammar.marked (readChain (readBlock .abort (readOrGap true inner.1)
        (progresses_readOrGap true inner.2))),
      progresses_readWith grammar.marked
        ((Tolerant.progresses_ofReader (Reader.progresses_expect "if")).bind _)⟩

end Statement

/-- The statements and gaps from a cursor on. -/
def layOut (grammar : Grammar α) (cursor : Cursor) : List (Statement (Mark α)) :=
  if more : cursor.rest = [] then []
  else
    let first := Statement.settle false (Statement.readMarked grammar Guard.mostNesting).1 cursor
    have : first.2.rest.length < cursor.rest.length :=
      Statement.progresses_readOrGap false (Statement.readMarked grammar Guard.mostNesting).2
        cursor more
    first.1 :: layOut grammar first.2
termination_by cursor.rest.length

namespace Statement

/-- Whether a laid out statement is a statement once its gaps and places are forgotten. -/
def LaysOut (layout : Statement (Mark α)) (statement : Statement α) : Prop :=
  keep Mark.payload? layout = [statement]

/-- Whether laid out statements are some statements once their gaps and places are forgotten. -/
def LayOut (layout : List (Statement (Mark α))) (statements : List (Statement α)) : Prop :=
  keepAll Mark.payload? layout = statements

/-- A statement is laid out as it is read when chains are. -/
theorem mirrors_readWith {grammar : Grammar α} {chain : Tolerant (Statement (Mark α))}
    {chain' : Tolerant (Statement α)} (chained : chain.Mirrors LaysOut chain') :
    (readWith grammar.marked chain).Mirrors LaysOut (readWith grammar chain') := by
  intro cursor
  by_cases starts : cursor.word = "if"
  · simp only [readWith, if_pos starts]
    exact chained cursor.look
  · simp only [readWith, if_neg starts, Grammar.marked]
    cases grammar.read.run cursor.look with
    | read payload after => exact .read rfl
    | failed error after => exact .failed

/-- Where resuming leaves a fault behind, the layout has a gap. -/
theorem mirrors_attempt {layout : Tolerant (Statement (Mark α))}
    {statement : Tolerant (Statement α)}
    (mirrors : layout.Mirrors LaysOut statement) :
    (attempt .abort true (readOrGap true layout)).Mirrors LayOut
      (attempt .resume true statement) := by
  intro cursor
  have here := mirrors cursor
  simp only [attempt, readOrGap, settle]
  cases left : layout.run cursor with
  | mk faults outcome =>
    cases right : statement.run cursor with
    | mk faults' outcome' =>
      rw [left, right] at here
      cases here with
      | read agree =>
        refine .read ?_
        rw [LayOut, keepAll, keepAll, List.append_nil]
        exact agree
      | failed => exact .read rfl

/-- The statements of a block that are laid out are those that reading goes on over. -/
theorem mirrors_body {layout : Tolerant (Statement (Mark α))} {statement : Tolerant (Statement α)}
    {progresses : (readOrGap true layout).Progresses} {progresses' : statement.Progresses}
    (mirrors : layout.Mirrors LaysOut statement) :
    (body .abort (readOrGap true layout) progresses).Mirrors LayOut
      (body .resume statement progresses') := by
  intro cursor
  induction measured : cursor.rest.length using Nat.strongRecOn generalizing cursor with
  | ind length ih =>
    by_cases ended : cursor.rest = []
    · rw [run_body_of_end ended, run_body_of_end ended]
      exact .failed
    · by_cases closes : cursor.word = "\x7d"
      · rw [run_body_of_brace closes, run_body_of_brace closes]
        exact .read rfl
      · rw [run_body ended closes, run_body ended closes]
        refine mirrors_bind_at (mirrors_attempt mirrors cursor.look) ?_
        intro faults front front' after ran agree
        have shorter : after.rest.length < length :=
          measured ▸ length_attempt_lt progresses ended ran
        refine mirrors_bind_at (ih _ shorter after rfl) ?_
        intro faults others others' last ran agree'
        refine .read ?_
        rw [LayOut, keepAll_append, agree, agree']

/-- The layout of a block is that of the statements between its braces. -/
theorem mirrors_readBlock {layout : Tolerant (Statement (Mark α))}
    {statement : Tolerant (Statement α)} {progresses : (readOrGap true layout).Progresses}
    {progresses' : statement.Progresses} (mirrors : layout.Mirrors LaysOut statement) :
    (readBlock .abort (readOrGap true layout) progresses).Mirrors LayOut
      (readBlock .resume statement progresses') :=
  mirrors_bind _ fun _ => mirrors_body mirrors

section Chain

variable {layout : Tolerant (List (Statement (Mark α)))} {block : Tolerant (List (Statement α))}

/-- A guarded block without the gaps and places in it. -/
def keepBranch (branch : Guard × List (Statement (Mark α))) : Guard × List (Statement α) :=
  (branch.1, keepAll Mark.payload? branch.2)

/-- The layout of a branch is that of its block. -/
theorem mirrors_readBranch (mirrors : layout.Mirrors LayOut block) :
    (readBranch layout).Mirrors (fun branch other => keepBranch branch = other)
      (readBranch block) := by
  refine mirrors_bind _ fun _ => mirrors_bind _ fun guard => mirrors_bind _ fun _ => ?_
  exact mirrors.bind fun body other agree => mirrors_pure (congrArg (Prod.mk guard) agree)

/-- The layout behind an else is that of the block behind it. -/
theorem mirrors_readElse (mirrors : layout.Mirrors LayOut block) :
    (readElse layout).Mirrors
      (fun branch other => branch.map keepBranch (keepAll Mark.payload?) = other)
      (readElse block) := by
  refine mirrors_bind _ fun found => ?_
  cases found with
  | true =>
    exact (mirrors_readBranch mirrors).bind fun _ _ agree => mirrors_pure (congrArg Sum.inl agree)
  | false => exact mirrors.bind fun _ _ agree => mirrors_pure (congrArg Sum.inr agree)

/-- The layout of a chain is that of its blocks. -/
theorem mirrors_readChain (mirrors : layout.Mirrors LayOut block) :
    (readChain layout).Mirrors LaysOut (readChain block) := by
  refine mirrors_bind _ fun _ => (mirrors_readBranch mirrors).bind ?_
  rintro ⟨guard, body⟩ _ rfl
  refine (mirrors_branches (mirrors_readElse mirrors)).bind ?_
  rintro ⟨others, last⟩ _ rfl
  refine mirrors_pure ?_
  rw [LaysOut, keep, Otherwise.keep_ofBranches]
  rfl

end Chain

/-- A chain that is too deep is refused alike in a layout. -/
theorem mirrors_readTooDeep :
    (readTooDeep : Tolerant (Statement (Mark α))).Mirrors LaysOut readTooDeep := by
  intro cursor
  simp only [readTooDeep, ofReader, Reader.run_bind]
  cases (Reader.expect "if").run cursor with
  | read value after => exact .failed
  | failed error after => exact .failed

/-- However deep blocks may lie, a layout takes the same tokens as reading does. -/
theorem mirrors_readMarked (grammar : Grammar α) (room : Nat) :
    (readMarked grammar room).1.Mirrors LaysOut (readNested grammar .resume room).1 := by
  induction room with
  | zero => exact mirrors_readWith mirrors_readTooDeep
  | succ room ih => exact mirrors_readWith (mirrors_readChain (mirrors_readBlock ih))

end Statement

section Agreement

variable {grammar : Grammar α}

/-- The layout of nothing is empty. -/
theorem layOut_end {cursor : Cursor} (ended : cursor.rest = []) : layOut grammar cursor = [] := by
  rw [layOut, dif_pos ended]

/-- The layout of a text starts with what the first attempt leaves. -/
theorem layOut_cons {cursor : Cursor} (more : cursor.rest ≠ []) :
    layOut grammar cursor =
      (Statement.settle false (Statement.readMarked grammar Guard.mostNesting).1 cursor).1 ::
        layOut grammar
          (Statement.settle false (Statement.readMarked grammar Guard.mostNesting).1 cursor).2 := by
  rw [layOut, dif_neg more]

/-- The layout of an attempt on a statement mirrors the attempt. -/
theorem mirrors_of_run {cursor : Cursor} {faults : List Located} {outcome : Outcome (Statement α)}
    (ran : (Statement.read grammar .resume).run cursor = ⟨faults, outcome⟩) :
    ((Statement.readMarked grammar Guard.mostNesting).1.run cursor).outcome.Mirrors
      Statement.LaysOut outcome := by
  have mirrors := Statement.mirrors_readMarked grammar Guard.mostNesting cursor
  change Outcome.Mirrors _ _ ((Statement.read grammar .resume).run cursor).outcome at mirrors
  rwa [ran] at mirrors

/-- A statement that was read is laid out. -/
theorem settle_of_read {cursor next : Cursor} {faults : List Located} {statement : Statement α}
    (inBlock : Bool)
    (ran : (Statement.read grammar .resume).run cursor = ⟨faults, .read statement next⟩) :
    ∃ layout, Statement.LaysOut layout statement ∧
      Statement.settle inBlock (Statement.readMarked grammar Guard.mostNesting).1 cursor =
        (layout, next) := by
  have mirrors := mirrors_of_run ran
  simp only [Statement.settle]
  cases outcome :
    ((Statement.readMarked grammar Guard.mostNesting).1.run cursor).outcome with
  | failed error after =>
    rw [outcome] at mirrors
    cases mirrors
  | read layout after =>
    rw [outcome] at mirrors
    cases mirrors with
    | read agree => exact ⟨layout, agree, rfl⟩

/-- A failed attempt is laid out as a gap, which ends where recovery stops. -/
theorem settle_of_failed {cursor next : Cursor} {faults : List Located} {error : Located}
    (inBlock : Bool)
    (ran : (Statement.read grammar .resume).run cursor = ⟨faults, .failed error next⟩) :
    Statement.settle inBlock (Statement.readMarked grammar Guard.mostNesting).1 cursor =
      (.expression (.gap (inFront cursor.rest (next.recover inBlock).rest)),
        next.recover inBlock) := by
  have mirrors := mirrors_of_run ran
  simp only [Statement.settle]
  cases outcome :
    ((Statement.readMarked grammar Guard.mostNesting).1.run cursor).outcome with
  | read layout after =>
    rw [outcome] at mirrors
    cases mirrors
  | failed error' after =>
    rw [outcome] at mirrors
    cases mirrors
    rfl

/-- Without its gaps and places, the layout of a text is what is read from it. -/
theorem keepAll_layOut (grammar : Grammar α) (cursor : Cursor) :
    Statement.keepAll Mark.payload? (layOut grammar cursor) =
      (Reading.ofCursor grammar .resume cursor).statements := by
  induction measured : cursor.rest.length using Nat.strongRecOn generalizing cursor with
  | ind length ih =>
    by_cases ended : cursor.rest = []
    · rw [layOut_end ended, Reading.ofCursor_end ended]
      rfl
    · rw [layOut_cons ended, Statement.keepAll]
      cases ran : (Statement.read grammar .resume).run cursor with
      | mk faults outcome =>
        have taken := (Statement.progresses_read grammar .resume).length_lt ended ran
        cases outcome with
        | read statement next =>
          have shorter : next.rest.length < length := measured ▸ taken
          obtain ⟨layout, agree, settled⟩ := settle_of_read false ran
          rw [settled, ih _ shorter next rfl, agree, Reading.ofCursor_read ended ran]
          rfl
        | failed error next =>
          have shorter : (next.recover false).rest.length < length := by
            have left := (next.recover_suffix false).length_le
            rw [Outcome.cursor_failed] at taken
            omega
          rw [settle_of_failed false ran, ih _ shorter _ rfl, Reading.ofCursor_failed ended ran,
            if_neg (by decide)]
          rfl

end Agreement

end FormPatch
