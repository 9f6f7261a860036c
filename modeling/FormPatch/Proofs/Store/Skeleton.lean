import FormPatch.Proofs.Store.View

/-!
# The skeleton of a store

The skeleton of a store is its load order together with the reference and the record type of each
form. Everything that guards and look-ups by reference ask of a store is answered by its skeleton,
so a change of forms that keeps their types changes no such answer.
-/

namespace FormPatch

/-- Two attempts in a row succeed when the first one does and the second one does behind it. -/
theorem Failure.bind_eq_ok {α β : Type} {first : Except Failure α} {next : α → Except Failure β}
    {value : β} :
    (first >>= next) = .ok value ↔ ∃ found, first = .ok found ∧ next found = .ok value := by
  cases first <;> simp [bind, Except.bind]

namespace Store

/-- The load order, and the reference and record type of each form. -/
def skeleton (store : Store) : List String × List (FormReference × RecordType) :=
  (store.plugins, store.forms.entries.map fun entry => (entry.1, entry.2.record.type))

/-- A form that is changed is found changed under each reference of its. -/
theorem get?_modify (store : Store) (reference other : FormReference) (change : Form → Form) :
    (store.modify reference change).get? other =
      if compare other reference = .eq then (store.get? other).map change
      else store.get? other :=
  store.forms.get?_modify reference change other

/-- Changing the form under a reference keeps the skeleton when it keeps the form's type. -/
theorem skeleton_modify {store : Store} {reference : FormReference} {change : Form → Form}
    (keeps : ∀ form, store.get? reference = some form →
      (change form).record.type = form.record.type) :
    (store.modify reference change).skeleton = store.skeleton :=
  view_modify (fun form => form.record.type) keeps

section Skeleton

variable {left right : Store}

/-- Stores with one skeleton have the same active plugins. -/
theorem isActive_of_skeleton (same : left.skeleton = right.skeleton) :
    left.isActive = right.isActive := by
  have plugins : left.plugins = right.plugins := congrArg Prod.fst same
  funext plugin
  simp only [isActive, plugins]

/-- The type of the form under a reference is read off the skeleton. -/
theorem type_of_skeleton (same : left.skeleton = right.skeleton) (reference : FormReference) :
    (left.get? reference).map (fun form => form.record.type) =
      (right.get? reference).map fun form => form.record.type :=
  get?_of_view (fun form => form.record.type) same reference

/-- Stores with one skeleton have the same live references. -/
theorem isLive_of_skeleton (same : left.skeleton = right.skeleton) :
    left.isLive = right.isLive := by
  funext reference
  have types := congrArg Option.isSome (type_of_skeleton same reference)
  simp only [Option.isSome_map] at types
  simp only [isLive, isActive_of_skeleton same]
  exact congrArg (right.isActive reference.plugin && ·) types

/-- A guard is answered by the skeleton. -/
theorem host_of_skeleton (same : left.skeleton = right.skeleton) : left.host = right.host := by
  simp only [host, isActive_of_skeleton same, isLive_of_skeleton same]

/-- A text resolves by the skeleton. -/
theorem resolveTyped_of_skeleton (same : left.skeleton = right.skeleton) (text : String)
    (expected : RecordType) :
    left.resolveTyped text expected = right.resolveTyped text expected := by
  have resolved : left.resolve text = right.resolve text := by
    simp only [resolve, isLive_of_skeleton same]
  simp only [resolveTyped, resolved]
  refine congrArg (right.resolve text >>= ·) (funext fun reference => ?_)
  have types := type_of_skeleton same reference
  cases found : left.get? reference with
  | none => cases found' : right.get? reference <;> simp_all
  | some form => cases found' : right.get? reference <;> simp_all

end Skeleton

/-- What a text resolves to is live and has the expected type. -/
theorem resolveTyped_eq_ok {store : Store} {text : String} {expected : RecordType}
    {reference : FormReference} (resolved : store.resolveTyped text expected = .ok reference) :
    store.isLive reference = true ∧
      ∃ form, store.get? reference = some form ∧ form.record.type = expected := by
  simp only [resolveTyped, resolve, Failure.bind_eq_ok] at resolved
  obtain ⟨found, ⟨parsed, _, live⟩, typed⟩ := resolved
  split at live
  · next holds =>
    cases live
    split at typed
    · cases typed
    · next form entry =>
      split at typed
      · next same =>
        cases typed
        exact ⟨holds, form, entry, same⟩
      · cases typed
  · cases live

/-- What is live has an active plugin. -/
theorem isActive_of_isLive {store : Store} {reference : FormReference}
    (live : store.isLive reference = true) : store.isActive reference.plugin = true :=
  (Bool.and_eq_true_iff.1 live).1

/-- Equal references have plugins that are active at once. -/
theorem isActive_congr {store : Store} {left right : FormReference}
    (same : compare left right = .eq) :
    store.isActive left.plugin = store.isActive right.plugin := by
  have folded : Text.fold left.plugin = Text.fold right.plugin := by
    have key := FormReference.compare_eq_iff.1 same
    simp only [FormReference.same, FormReference.key, beq_iff_eq, Prod.mk.injEq] at key
    exact key.1
  simp only [isActive]
  refine congrArg (List.any store.plugins) (funext fun plugin => ?_)
  simp only [Text.agree, folded]

end Store

end FormPatch
