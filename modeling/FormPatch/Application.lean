import FormPatch.Statement.Active

/-!
# Applying statements

Statements are applied to a store in order. Every guard is evaluated against the store as it is
when the guard is reached. What fails is skipped and reported as a warning.
-/

namespace FormPatch

/-- A store after some statements were applied to it. -/
structure Applied where
  /-- The store. -/
  store : Store
  /-- What was reported, in order. -/
  reports : List Diagnostic := []
  /-- The forms that were opened for editing, in order. -/
  opened : List FormReference := []

namespace Applied

/-- Goes on with the store. -/
def andThen (applied : Applied) (next : Store → Applied) : Applied :=
  let later := next applied.store
  ⟨later.store, applied.reports ++ later.reports, applied.opened ++ later.opened⟩

/-- Goes on with the store for each item of a list. -/
def forEach {α : Type} (items : List α) (step : α → Store → Applied) (store : Store) : Applied :=
  items.foldl (fun applied item => applied.andThen (step item)) ⟨store, [], []⟩

/-- The store as it was, and a warning about what failed while a record type was patched. -/
def refused (store : Store) (type : RecordType) (failure : Failure) (opened : List FormReference) :
    Applied :=
  let context : Context := { recordType := some type.name }
  ⟨store, [.ofFailure .warning failure (some context)], opened⟩

end Applied

variable {α : Type}

mutual

/-- Applies a statement, given how an expression is applied. -/
def Statement.apply (patch : α → Store → Applied) : Statement α → Store → Applied
  | .expression payload, store => patch payload store
  | .conditional guard body otherwise, store =>
    let (holds, reports) := guard.evaluate store.host
    (⟨store, reports, []⟩ : Applied).andThen
      (if holds then applyAll patch body else otherwise.apply patch)

/-- Applies statements in order. -/
def applyAll (patch : α → Store → Applied) : List (Statement α) → Store → Applied
  | [], store => ⟨store, [], []⟩
  | statement :: rest, store => (statement.apply patch store).andThen (applyAll patch rest)

/-- Applies what stands behind a guard that does not hold. -/
def Otherwise.apply (patch : α → Store → Applied) : Otherwise α → Store → Applied
  | .nothing, store => ⟨store, [], []⟩
  | .block body, store => applyAll patch body store
  | .branch guard body otherwise, store =>
    let (holds, reports) := guard.evaluate store.host
    (⟨store, reports, []⟩ : Applied).andThen
      (if holds then applyAll patch body else otherwise.apply patch)

end

end FormPatch
