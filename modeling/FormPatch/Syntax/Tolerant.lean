import FormPatch.Syntax.Reader

/-!
# Tolerant readers

A tolerant reader may come over faults: besides its outcome it answers the faults that it came
over, in the order in which they were met. Like every reader it can only take tokens.
-/

namespace FormPatch.Syntax

/-- The end of a tolerant reader's run. -/
structure Passage (α : Type) where
  /-- The faults that were come over, in order. -/
  faults : List Located
  /-- The value or fault at the end, with the cursor that is left. -/
  outcome : Outcome α
deriving Repr

namespace Passage

variable {α β : Type}

/-- The cursor that is left. -/
def cursor (passage : Passage α) : Cursor := passage.outcome.cursor

/-- The passage with its value changed. -/
def map (change : α → β) (passage : Passage α) : Passage β :=
  ⟨passage.faults, passage.outcome.map change⟩

/-- The passage after earlier faults. -/
def behind (faults : List Located) (passage : Passage α) : Passage α :=
  ⟨faults ++ passage.faults, passage.outcome⟩

/-- A passage stands where its outcome does. -/
@[simp] theorem cursor_mk (faults : List Located) (outcome : Outcome α) :
    (⟨faults, outcome⟩ : Passage α).cursor = outcome.cursor :=
  rfl

/-- Changing the value of a passage leaves the cursor. -/
@[simp] theorem cursor_map (change : α → β) (passage : Passage α) :
    (passage.map change).cursor = passage.cursor :=
  Outcome.cursor_map change passage.outcome

/-- Faults met in front leave the cursor. -/
@[simp] theorem cursor_behind (faults : List Located) (passage : Passage α) :
    (passage.behind faults).cursor = passage.cursor :=
  rfl

end Passage

/-- A reader that may come over faults. -/
structure Tolerant (α : Type) where
  /-- Reads from a cursor. -/
  run : Cursor → Passage α
  /-- What is left is the end of what was there. -/
  suffix : ∀ cursor, (run cursor).cursor.rest <:+ cursor.rest

namespace Tolerant

variable {α β : Type}

/-- A tolerant reader leaves no more tokens than there were. -/
theorem length_le (reader : Tolerant α) (cursor : Cursor) :
    (reader.run cursor).cursor.rest.length ≤ cursor.rest.length :=
  (reader.suffix cursor).length_le

/-- A reader that comes over nothing. -/
def ofReader (reader : Reader α) : Tolerant α where
  run cursor := ⟨[], reader.run cursor⟩
  suffix := reader.suffix

instance : MonadLift Reader Tolerant := ⟨ofReader⟩

/-- Runs a second reader after the first one, chosen by its value. -/
def andThen (reader : Tolerant α) (next : α → Tolerant β) : Tolerant β where
  run cursor :=
    match reader.run cursor with
    | ⟨faults, .read value after⟩ => ((next value).run after).behind faults
    | ⟨faults, .failed error after⟩ => ⟨faults, .failed error after⟩
  suffix cursor := by
    have first := reader.suffix cursor
    split
    · next faults value after h =>
      rw [h] at first
      exact ((next value).suffix after).trans first
    · next faults error after h =>
      rw [h] at first
      exact first

instance : Monad Tolerant where
  pure value := ofReader (pure value)
  bind := andThen

/-- A tolerant reader that goes on starts where the value in front ends, and keeps its faults in
front. -/
theorem run_bind (reader : Tolerant α) (next : α → Tolerant β) (cursor : Cursor) :
    (reader >>= next).run cursor =
      match reader.run cursor with
      | ⟨faults, .read value after⟩ => ((next value).run after).behind faults
      | ⟨faults, .failed error after⟩ => ⟨faults, .failed error after⟩ :=
  rfl

/-- A reader progresses when it takes a token wherever there is one, even if it fails. -/
def Progresses (reader : Tolerant α) : Prop :=
  ∀ cursor, cursor.rest ≠ [] → (reader.run cursor).cursor.rest.length < cursor.rest.length

/-- A tolerant reader makes progress when the strict one does. -/
theorem progresses_ofReader {reader : Reader α} (progresses : reader.Progresses) :
    (ofReader reader).Progresses :=
  progresses

/-- What follows a reader that progresses cannot undo it. -/
theorem Progresses.bind {reader : Tolerant α} (progresses : reader.Progresses)
    (next : α → Tolerant β) : (reader >>= next).Progresses := by
  intro cursor more
  have first := progresses cursor more
  rw [run_bind]
  split
  · next faults value after h =>
    rw [h] at first
    exact Nat.lt_of_le_of_lt ((next value).length_le after) first
  · next faults error after h =>
    rw [h] at first
    exact first

/-- Runs the item once for each mark in front of it, up to an item that is the last one. -/
def runBranches (mark : String) (named : mark ≠ "") (item : Tolerant (α ⊕ β)) (cursor : Cursor) :
    Passage (List α × Option β) :=
  match accepted : (Reader.accept mark).run cursor with
  | .failed error after => ⟨[], .failed error after⟩
  | .read false after => ⟨[], .read ([], none) after⟩
  | .read true after =>
    match ran : item.run after with
    | ⟨faults, .failed error later⟩ => ⟨faults, .failed error later⟩
    | ⟨faults, .read (.inr last) later⟩ => ⟨faults, .read ([], some last) later⟩
    | ⟨faults, .read (.inl value) later⟩ =>
      have taken := Reader.length_of_accept named accepted
      have kept : later.rest.length ≤ after.rest.length := by simpa [ran] using item.length_le after
      ((runBranches mark named item later).map fun (values, last) => (value :: values, last)).behind
        faults
termination_by cursor.rest.length
decreasing_by omega

/-- Reading branches only takes tokens. -/
theorem runBranches_suffix (mark : String) (named : mark ≠ "") (item : Tolerant (α ⊕ β))
    (cursor : Cursor) : (runBranches mark named item cursor).cursor.rest <:+ cursor.rest := by
  fun_induction runBranches mark named item cursor with
  | case1 cursor error after accepted =>
    have first := (Reader.accept mark).suffix cursor
    rwa [accepted] at first
  | case2 cursor after accepted =>
    have first := (Reader.accept mark).suffix cursor
    rwa [accepted] at first
  | case3 cursor after accepted faults error later ran =>
    have first := (Reader.accept mark).suffix cursor
    have second := item.suffix after
    rw [accepted] at first
    rw [ran] at second
    exact second.trans first
  | case4 cursor after accepted faults last later ran =>
    have first := (Reader.accept mark).suffix cursor
    have second := item.suffix after
    rw [accepted] at first
    rw [ran] at second
    exact second.trans first
  | case5 cursor after accepted faults value later ran _ _ ih =>
    have first := (Reader.accept mark).suffix cursor
    have second := item.suffix after
    rw [accepted] at first
    rw [ran] at second
    rw [Passage.cursor_behind, Passage.cursor_map]
    exact ih.trans (second.trans first)

/-- Reads the item once for each mark in front of it. An item on the right is the last one. -/
def branches (mark : String) (named : mark ≠ "") (item : Tolerant (α ⊕ β)) :
    Tolerant (List α × Option β) where
  run := runBranches mark named item
  suffix := runBranches_suffix mark named item

end Tolerant

end FormPatch.Syntax
