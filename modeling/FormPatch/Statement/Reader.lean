import FormPatch.Guard.Reader
import FormPatch.Statement
import FormPatch.Statement.Grammar
import FormPatch.Statement.Recovery
import FormPatch.Syntax.Tolerant

/-!
# Reading statements

Chains of guarded blocks are read here; every other statement is left to the record type's
grammar. In a text that may resume, a fault inside a block costs one statement of that block.

Main statement: an attempt to read a statement takes a token, so reading a text ends.
-/

namespace FormPatch

open Syntax

namespace Statement

variable {α : Type}

/-- Reads the statements of a block whose opening brace has been taken, and its closing brace. -/
def runBody (recovery : Recovery) (statement : Tolerant (Statement α))
    (progresses : statement.Progresses) (cursor : Cursor) : Passage (List (Statement α)) :=
  if more : cursor.rest = [] then ⟨[], .failed ⟨.expected "\x7d" "", cursor.shown⟩ cursor⟩
  else if cursor.word = "\x7d" then ⟨[], .read [] cursor.take⟩
  else
    have shorter : (statement.run cursor.look).cursor.rest.length < cursor.rest.length := by
      simpa using progresses cursor.look (by simpa using more)
    match ran : statement.run cursor.look with
    | ⟨faults, .read first after⟩ =>
      have : after.rest.length < cursor.rest.length := by simpa [ran] using shorter
      ((runBody recovery statement progresses after).map (first :: ·)).behind faults
    | ⟨faults, .failed error after⟩ =>
      if recovery = .abort then ⟨faults, .failed error after⟩
      else
        have : after.rest.length < cursor.rest.length := by simpa [ran] using shorter
        have : (after.recover true).rest.length ≤ after.rest.length :=
          (after.recover_suffix true).length_le
        (runBody recovery statement progresses (after.recover true)).behind (faults ++ [error])
termination_by cursor.rest.length
decreasing_by all_goals omega

/-- Reading the statements of a block only takes tokens. -/
theorem runBody_suffix (recovery : Recovery) (statement : Tolerant (Statement α))
    (progresses : statement.Progresses) (cursor : Cursor) :
    (runBody recovery statement progresses cursor).cursor.rest <:+ cursor.rest := by
  fun_induction runBody recovery statement progresses cursor with
  | case1 cursor more => exact List.suffix_rfl
  | case2 cursor more closes => exact cursor.take_suffix
  | case3 cursor more inside _ faults first after ran _ ih =>
    have attempt := statement.suffix cursor.look
    rw [ran, Cursor.rest_look] at attempt
    simpa using ih.trans attempt
  | case4 cursor more inside _ faults error after ran _ =>
    have attempt := statement.suffix cursor.look
    rw [ran, Cursor.rest_look] at attempt
    exact attempt
  | case5 cursor more inside _ faults error after ran _ _ _ ih =>
    have attempt := statement.suffix cursor.look
    rw [ran, Cursor.rest_look] at attempt
    simpa using ih.trans ((after.recover_suffix true).trans attempt)

/-- Reads a block, from brace to brace. -/
def readBlock (recovery : Recovery) (statement : Tolerant (Statement α))
    (progresses : statement.Progresses) : Tolerant (List (Statement α)) := do
  Reader.expect "\x7b"
  let body : Tolerant (List (Statement α)) :=
    ⟨runBody recovery statement progresses, runBody_suffix recovery statement progresses⟩
  body

/-- Reads a guard in parentheses and the block behind it. -/
def readBranch (block : Tolerant (List (Statement α))) :
    Tolerant (Guard × List (Statement α)) := do
  Reader.expect "("
  let guard ← Guard.read
  Reader.expect ")"
  let body ← block
  pure (guard, body)

/-- Reads what follows `else`: a guarded block after `if`, or the last block. -/
def readElse (block : Tolerant (List (Statement α))) :
    Tolerant ((Guard × List (Statement α)) ⊕ List (Statement α)) := do
  if ← Reader.accept "if" then
    let branch ← readBranch block
    pure (.inl branch)
  else
    let body ← block
    pure (.inr body)

/-- Reads a chain of guarded blocks. -/
def readChain (block : Tolerant (List (Statement α))) : Tolerant (Statement α) := do
  Reader.expect "if"
  let (guard, body) ← readBranch block
  let (others, last) ← Tolerant.branches "else" (by decide) (readElse block)
  pure (.conditional guard body (.ofBranches others last))

/-- Reads a statement, given how a chain is read. -/
def readWith (grammar : Grammar α) (chain : Tolerant (Statement α)) : Tolerant (Statement α) where
  run cursor :=
    if cursor.word = "if" then chain.run cursor.look
    else ⟨[], (grammar.read.run cursor.look).map .expression⟩
  suffix cursor := by
    split
    · simpa using chain.suffix cursor.look
    · simpa using grammar.read.suffix cursor.look

/-- Reading a statement makes progress when reading a chain does. -/
theorem progresses_readWith (grammar : Grammar α) {chain : Tolerant (Statement α)}
    (progresses : chain.Progresses) : (readWith grammar chain).Progresses := by
  intro cursor more
  have ahead : cursor.look.rest ≠ [] := by simpa using more
  simp only [readWith]
  split
  · simpa using progresses cursor.look ahead
  · simpa using grammar.progresses cursor.look ahead

/-- Where no room is left for another block, a chain is a fault. -/
def readTooDeep : Tolerant (Statement α) :=
  Tolerant.ofReader (Reader.expect "if" >>= fun _ => Reader.fail .nesting)

/-- Reads a statement in which blocks may lie as deep as the room allows. -/
def readNested (grammar : Grammar α) (recovery : Recovery) :
    Nat → { reader : Tolerant (Statement α) // reader.Progresses }
  | 0 =>
    ⟨readWith grammar readTooDeep,
      progresses_readWith grammar ((Reader.progresses_expect "if").bind _)⟩
  | room + 1 =>
    let inner := readNested grammar recovery room
    ⟨readWith grammar (readChain (readBlock recovery inner.1 inner.2)),
      progresses_readWith grammar
        ((Tolerant.progresses_ofReader (Reader.progresses_expect "if")).bind _)⟩

/-- Reads one statement. -/
def read (grammar : Grammar α) (recovery : Recovery) : Tolerant (Statement α) :=
  (readNested grammar recovery Guard.mostNesting).1

/-- An attempt to read a statement takes a token. -/
theorem progresses_read (grammar : Grammar α) (recovery : Recovery) :
    (read grammar recovery).Progresses :=
  (readNested grammar recovery Guard.mostNesting).2

end Statement

/-- What was read from a text: its statements and the faults that were met, in order. -/
structure Reading (α : Type) where
  /-- The statements. -/
  statements : List (Statement α)
  /-- The faults. -/
  faults : List Located

namespace Reading

variable {α : Type}

/-- The reading with a statement and some faults in front. -/
def after (faults : List Located) (statements : List (Statement α)) (reading : Reading α) :
    Reading α :=
  ⟨statements ++ reading.statements, faults ++ reading.faults⟩

/-- Reads every statement from a cursor on. -/
def ofCursor (grammar : Grammar α) (recovery : Recovery) (cursor : Cursor) : Reading α :=
  if more : cursor.rest = [] then ⟨[], []⟩
  else
    have shorter :
        ((Statement.read grammar recovery).run cursor).cursor.rest.length < cursor.rest.length :=
      Statement.progresses_read grammar recovery cursor more
    match ran : (Statement.read grammar recovery).run cursor with
    | ⟨faults, .read statement next⟩ =>
      have : next.rest.length < cursor.rest.length := by simpa [ran] using shorter
      (ofCursor grammar recovery next).after faults [statement]
    | ⟨faults, .failed error next⟩ =>
      if recovery = .abort then ⟨[], faults ++ [error]⟩
      else
        have : next.rest.length < cursor.rest.length := by simpa [ran] using shorter
        have : (next.recover false).rest.length ≤ next.rest.length :=
          (next.recover_suffix false).length_le
        (ofCursor grammar recovery (next.recover false)).after (faults ++ [error]) []
termination_by cursor.rest.length
decreasing_by all_goals omega

/-- Reads every statement of a token list. -/
def ofTokens (grammar : Grammar α) (recovery : Recovery) (tokens : List Token) : Reading α :=
  ofCursor grammar recovery (.ofTokens tokens)

/-- Reads every statement of a text. -/
def ofText (grammar : Grammar α) (recovery : Recovery) (source : String) : Reading α :=
  ofTokens grammar recovery (tokenize source)

end Reading

end FormPatch
