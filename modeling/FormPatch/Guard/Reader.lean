import FormPatch.Guard

/-!
# Reading guards

A guard is read up to the parenthesis that closes it, which stays. Each element is checked
against the one before it in its group, so a guard that is read holds an operand between any two
binary operators and an operator between any two operands.
-/

namespace FormPatch.Guard

open Syntax Syntax.Reader

/-- Groups in a guard may lie this deep in each other, and so may blocks of statements. -/
def mostNesting : Nat := 64

/-- The arguments of a call, from parenthesis to parenthesis. -/
def readCall (question : Question) : Reader Call := do
  expect "("
  let argument ← match question with
    | .isPluginExists => string
    | .isFormExists => form
  expect ")"
  pure ⟨question, argument⟩

/-- Whether an operand is complete after the last element, if there is one. -/
def isComplete (before : Option GuardToken) : Bool := before.any GuardToken.endsOperand

/-- A binary operator, written as a mark and the same mark again. -/
def readBinary (mark : String) (operator : Operator) (before : Option GuardToken) :
    Reader Guard := do
  expect mark
  let second ← next
  require (second = mark) (.halfOperator mark)
  require (isComplete before) (.noLeftOperand operator.symbol)
  pure [.operator operator]

/-- A negation, which may only stand before an operand. -/
def readNegation (before : Option GuardToken) : Reader Guard := do
  expect "!"
  require (before != some (.operator .negate)) .doubleNegation
  require (!isComplete before) .negationAfterOperand
  pure [.operator .negate]

/-- One element of a group, given what stands before it and how a group within it is read. -/
def readElement (group : Reader Guard) (before : Option GuardToken) (word : String) :
    Reader Guard :=
  if word = "(" then do
    require (!isComplete before) .noOperator
    expect "("
    let inside ← group
    expect ")"
    pure (.opening :: inside ++ [.closing])
  else if word = "&" then readBinary "&" .both before
  else if word = "|" then readBinary "|" .either before
  else if word = "!" then readNegation before
  else
    match Question.ofWord? word with
    | none => fail (.predicate word)
    | some question => do
      require (!isComplete before) .noOperator
      expect question.word
      let call ← readCall question
      pure [.call call]

/-- An element costs a token. -/
theorem advances_readElement (group : Reader Guard) (before : Option GuardToken) (word : String) :
    (readElement group before word).Advances := by
  unfold readElement
  split
  · exact .after (fun _ => (advances_expect (by decide)).bind _) _
  · split
    · exact (advances_expect (by decide)).bind _
    · split
      · exact (advances_expect (by decide)).bind _
      · split
        · exact (advances_expect (by decide)).bind _
        · split
          · exact advances_fail _
          · next question _ =>
            have named : question.word ≠ "" := by cases question <;> decide
            exact .after (fun _ => (advances_expect named).bind _) _

/-- Where a group ends, its last element must complete an operand. -/
def readEnd (before : Option GuardToken) : Reader Guard :=
  match before with
  | none => fail .emptyGuard
  | some (.operator operator) => fail (.endsWithOperator operator.symbol)
  | some _ => pure []

/-- Reads the rest of a group, given the element before it. -/
def runGroup (group : Reader Guard) (before : Option GuardToken) (cursor : Cursor) :
    Outcome Guard :=
  if cursor.rest = [] then .failed ⟨.expected ")" "", cursor.shown⟩ cursor
  else if cursor.word = ")" then (readEnd before).run cursor.look
  else
    match ran : (readElement group before cursor.word).run cursor.look with
    | .failed error after => .failed error after
    | .read tokens after =>
      have shorter : after.rest.length < cursor.rest.length := by
        simpa using advances_readElement group before cursor.word cursor.look tokens after ran
      (runGroup group tokens.getLast? after).map (tokens ++ ·)
termination_by cursor.rest.length

/-- What is left behind a group is an end of what stood in front of it. -/
theorem runGroup_suffix (group : Reader Guard) (before : Option GuardToken) (cursor : Cursor) :
    (runGroup group before cursor).cursor.rest <:+ cursor.rest := by
  fun_induction runGroup group before cursor with
  | case1 before cursor empty => exact List.suffix_rfl
  | case2 before cursor more closes => simpa using (readEnd before).suffix cursor.look
  | case3 before cursor more inside error after ran =>
    have first := (readElement group before cursor.word).suffix cursor.look
    rw [ran, Cursor.rest_look] at first
    exact first
  | case4 before cursor more inside tokens after ran _ ih =>
    have first := (readElement group before cursor.word).suffix cursor.look
    rw [ran, Cursor.rest_look] at first
    rw [Outcome.cursor_map]
    exact ih.trans first

/-- Reads a group in which groups may lie as deep as the room allows. -/
def readGroup : Nat → Reader Guard
  | 0 => ⟨runGroup (fail .nesting) none, runGroup_suffix (fail .nesting) none⟩
  | room + 1 => ⟨runGroup (readGroup room) none, runGroup_suffix (readGroup room) none⟩

/-- Reads a guard whose opening parenthesis has been taken. -/
def read : Reader Guard := readGroup mostNesting

end FormPatch.Guard
