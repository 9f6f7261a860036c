import FormPatch.Syntax.Fault
import FormPatch.Token.Lexer

/-!
# Readers

A reader takes tokens from the front of a list and answers a value or a fault. It remembers the
place of the token looked at last, which is where a fault is reported. A reader can only take
tokens: this is part of its type, and it is what makes every loop over tokens end.
-/

namespace FormPatch.Syntax

/-- How far a text has been read. -/
structure Cursor where
  /-- The tokens not yet taken. -/
  rest : List Token
  /-- The place of the token looked at last. -/
  shown : Position := Position.start
deriving DecidableEq, Repr

namespace Cursor

/-- Before the first token of a text. -/
def ofTokens (tokens : List Token) : Cursor := ⟨tokens, Position.start⟩

/-- Before the first token of a text. -/
def ofText (source : String) : Cursor := ofTokens (tokenize source)

/-- The text of the next token, empty at the end. -/
def word (cursor : Cursor) : String :=
  match cursor.rest with
  | [] => ""
  | token :: _ => token.text

/-- The cursor once the next token has been looked at. -/
def look (cursor : Cursor) : Cursor :=
  match cursor.rest with
  | [] => cursor
  | token :: _ => ⟨cursor.rest, token.position⟩

/-- The cursor once the next token has been taken. -/
def take (cursor : Cursor) : Cursor :=
  match cursor.rest with
  | [] => cursor
  | token :: rest => ⟨rest, token.position⟩

/-- Looking ahead leaves the rest. -/
@[simp] theorem rest_look (cursor : Cursor) : cursor.look.rest = cursor.rest := by
  unfold look
  split <;> simp_all

/-- Taking a token leaves the tokens behind it. -/
theorem rest_take (cursor : Cursor) : cursor.take.rest = cursor.rest.tail := by
  unfold take
  split <;> simp_all

/-- Taking a token leaves an end of the rest. -/
theorem take_suffix (cursor : Cursor) : cursor.take.rest <:+ cursor.rest :=
  cursor.rest_take ▸ List.tail_suffix _

/-- Where there are tokens, taking one leaves fewer. -/
theorem length_take_lt {cursor : Cursor} (more : cursor.rest ≠ []) :
    cursor.take.rest.length < cursor.rest.length := by
  have positive := List.length_pos_iff.2 more
  rw [rest_take, List.length_tail]
  omega

end Cursor

/-- The end of a reader's run: a value or a fault, and the cursor that is left. -/
inductive Outcome (α : Type) where
  /-- The reader succeeded. -/
  | read (value : α) (cursor : Cursor)
  /-- The reader failed. -/
  | failed (error : Located) (cursor : Cursor)
deriving DecidableEq, Repr

namespace Outcome

variable {α β : Type}

/-- The cursor that is left. -/
def cursor : Outcome α → Cursor
  | read _ cursor => cursor
  | failed _ cursor => cursor

/-- The outcome with its value changed. -/
def map (change : α → β) : Outcome α → Outcome β
  | read value cursor => read (change value) cursor
  | failed error cursor => failed error cursor

/-- A value that was read leaves the cursor behind it. -/
@[simp] theorem cursor_read (value : α) (cursor : Cursor) : (read value cursor).cursor = cursor :=
  rfl

/-- A failure leaves the cursor where it failed. -/
@[simp] theorem cursor_failed (error : Located) (cursor : Cursor) :
    (failed error cursor : Outcome α).cursor = cursor :=
  rfl

/-- Changing a value leaves the cursor. -/
@[simp] theorem cursor_map (change : α → β) (outcome : Outcome α) :
    (outcome.map change).cursor = outcome.cursor := by
  cases outcome <;> rfl

end Outcome

/-- A reader of values of one type. -/
structure Reader (α : Type) where
  /-- Reads from a cursor. -/
  run : Cursor → Outcome α
  /-- What is left is the end of what was there. -/
  suffix : ∀ cursor, (run cursor).cursor.rest <:+ cursor.rest

namespace Reader

variable {α β : Type}

/-- Two readers are equal when they run alike. -/
theorem ext {left right : Reader α} (h : ∀ cursor, left.run cursor = right.run cursor) :
    left = right := by
  cases left
  cases right
  simpa using funext h

/-- A reader leaves no more tokens than there were. -/
theorem length_le (reader : Reader α) (cursor : Cursor) :
    (reader.run cursor).cursor.rest.length ≤ cursor.rest.length :=
  (reader.suffix cursor).length_le

/-- The reader that takes nothing and answers a value. -/
def answer (value : α) : Reader α := ⟨fun cursor => .read value cursor, fun _ => List.suffix_rfl⟩

/-- Runs a second reader after the first one, chosen by its value. -/
def andThen (reader : Reader α) (next : α → Reader β) : Reader β where
  run cursor :=
    match reader.run cursor with
    | .read value after => (next value).run after
    | .failed error after => .failed error after
  suffix cursor := by
    have first := reader.suffix cursor
    split
    · next value after h => exact ((next value).suffix after).trans (by simpa [h] using first)
    · next error after h => simpa [h] using first

instance : Monad Reader where
  pure := answer
  bind := andThen

/-- An answer at once leaves the cursor. -/
@[simp] theorem run_pure (value : α) (cursor : Cursor) :
    (pure value : Reader α).run cursor = .read value cursor :=
  rfl

/-- A reader that goes on starts where the value in front ends, unless that one failed. -/
theorem run_bind (reader : Reader α) (next : α → Reader β) (cursor : Cursor) :
    (reader >>= next).run cursor =
      match reader.run cursor with
      | .read value after => (next value).run after
      | .failed error after => .failed error after :=
  rfl

/-- The text of the next token, which stays. -/
def peek : Reader String where
  run cursor := .read cursor.word cursor.look
  suffix cursor := by simp

/-- Takes the next token and answers its text; at the end of the text it answers nothing. -/
def next : Reader String where
  run cursor := .read cursor.word cursor.take
  suffix cursor := cursor.take_suffix

/-- Reports a fault at the token looked at last. -/
def fail (fault : Fault) : Reader α where
  run cursor := .failed ⟨fault, cursor.shown⟩ cursor
  suffix _ := List.suffix_rfl

/-- Takes the next token, which must be the given word. -/
def expect (mark : String) : Reader Unit := do
  let found ← next
  if found = mark then pure () else fail (.expected mark found)

/-- Takes the next token if it is the given word, and answers whether it was. -/
def accept (mark : String) : Reader Bool := do
  if (← peek) = mark then
    let _ ← next
    pure true
  else pure false

/-- Reports a fault unless a condition holds. -/
def require (condition : Bool) (fault : Fault) : Reader Unit :=
  if condition then pure () else fail fault

/-- A reader advances when each value it answers has cost a token. -/
def Advances (reader : Reader α) : Prop :=
  ∀ cursor value after, reader.run cursor = .read value after →
    after.rest.length < cursor.rest.length

/-- A reader progresses when it takes a token wherever there is one, even if it fails. -/
def Progresses (reader : Reader α) : Prop :=
  ∀ cursor, cursor.rest ≠ [] → (reader.run cursor).cursor.rest.length < cursor.rest.length

/-- What follows a reader that progresses cannot undo it. -/
theorem Progresses.bind {reader : Reader α} (progresses : reader.Progresses)
    (next : α → Reader β) : (reader >>= next).Progresses := by
  intro cursor more
  have first := progresses cursor more
  rw [run_bind]
  split
  · next value after h =>
    rw [h] at first
    exact Nat.lt_of_le_of_lt ((next value).length_le after) first
  · next error after h => simpa [h] using first

/-- What follows a reader that advances cannot undo it. -/
theorem Advances.bind {reader : Reader α} (advances : reader.Advances) (next : α → Reader β) :
    (reader >>= next).Advances := by
  intro cursor value after h
  rw [run_bind] at h
  split at h
  · next first middle ran =>
    have second := (next first).length_le middle
    rw [h] at second
    exact Nat.lt_of_le_of_lt second (advances _ _ _ ran)
  · simp at h

/-- Whatever comes before it, a reader that advances makes the whole advance. -/
theorem Advances.after {next : α → Reader β} (advances : ∀ value, (next value).Advances)
    (reader : Reader α) : (reader >>= next).Advances := by
  intro cursor value after h
  rw [run_bind] at h
  split at h
  · next first middle ran =>
    have before := reader.length_le cursor
    rw [ran] at before
    exact Nat.lt_of_lt_of_le (advances _ _ _ _ h) before
  · simp at h

/-- A failure advances, since it answers nothing. -/
theorem advances_fail (fault : Fault) : (fail fault : Reader α).Advances := by
  intro cursor value after h
  simp [fail] at h

/-- Taking the next word makes progress. -/
theorem progresses_next : next.Progresses := fun _ more => Cursor.length_take_lt more

/-- Expecting a word makes progress. -/
theorem progresses_expect (mark : String) : (expect mark).Progresses := progresses_next.bind _

/-- A fixed word that is accepted has been taken, so the text was not at its end. -/
theorem length_of_accept {mark : String} {cursor after : Cursor} (named : mark ≠ "")
    (h : (accept mark).run cursor = .read true after) :
    after.rest.length < cursor.rest.length := by
  by_cases found : cursor.word = mark
  · have more : cursor.look.rest ≠ [] := by
      intro empty
      rw [Cursor.rest_look] at empty
      exact named (by rw [← found, Cursor.word, empty])
    have taken := Cursor.length_take_lt more
    have same : cursor.look.take = after := by
      simpa [accept, run_bind, peek, next, found] using h
    rw [same, Cursor.rest_look] at taken
    exact taken
  · simp [accept, run_bind, peek, found] at h

/-- A fixed word that was expected and met has been taken. -/
theorem advances_expect {mark : String} (named : mark ≠ "") : (expect mark).Advances := by
  intro cursor value after h
  by_cases found : cursor.word = mark
  · have more : cursor.rest ≠ [] := by
      intro empty
      exact named (by rw [← found, Cursor.word, empty])
    have same : cursor.take = after := by
      simpa [expect, run_bind, next, found] using h
    exact same ▸ Cursor.length_take_lt more
  · simp [expect, run_bind, next, found, fail] at h

/-- Runs the item once for each mark in front of it. -/
def runAfterEach (mark : String) (named : mark ≠ "") (item : Reader α) (cursor : Cursor) :
    Outcome (List α) :=
  match accepted : (accept mark).run cursor with
  | .failed error after => .failed error after
  | .read false after => .read [] after
  | .read true after =>
    match ran : item.run after with
    | .failed error later => .failed error later
    | .read value later =>
      have taken := length_of_accept named accepted
      have kept : later.rest.length ≤ after.rest.length := by simpa [ran] using item.length_le after
      (runAfterEach mark named item later).map (value :: ·)
termination_by cursor.rest.length
decreasing_by omega

/-- Reading items behind a mark only takes tokens. -/
theorem runAfterEach_suffix (mark : String) (named : mark ≠ "") (item : Reader α)
    (cursor : Cursor) : (runAfterEach mark named item cursor).cursor.rest <:+ cursor.rest := by
  fun_induction runAfterEach mark named item cursor with
  | case1 cursor error after accepted =>
    have first := (accept mark).suffix cursor
    rwa [accepted] at first
  | case2 cursor after accepted =>
    have first := (accept mark).suffix cursor
    rwa [accepted] at first
  | case3 cursor after accepted error later ran =>
    have first := (accept mark).suffix cursor
    have second := item.suffix after
    rw [accepted] at first
    rw [ran] at second
    exact second.trans first
  | case4 cursor after accepted value later ran _ _ ih =>
    have first := (accept mark).suffix cursor
    have second := item.suffix after
    rw [accepted] at first
    rw [ran] at second
    rw [Outcome.cursor_map]
    exact ih.trans (second.trans first)

/-- Reads the item once for each mark in front of it, up to the first other word. -/
def afterEach (mark : String) (named : mark ≠ "") (item : Reader α) : Reader (List α) where
  run := runAfterEach mark named item
  suffix := runAfterEach_suffix mark named item

end Reader

end FormPatch.Syntax
