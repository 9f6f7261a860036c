import FormPatch.Armor.Application
import FormPatch.Keyword.Patch
import FormPatch.Proofs.Store.Skeleton

/-!
# Runs of patches

A run of patches is put together from its steps, and what every step keeps the run keeps. Each edit
either leaves the store alone or changes the one form that it was made for. Main statement: patches
of both record types keep the skeleton of a store.
-/

namespace FormPatch

namespace Applied

variable {α : Type}

/-- Going on with a store leads to where the next step leads from it. -/
@[simp] theorem store_andThen (applied : Applied) (next : Store → Applied) :
    (applied.andThen next).store = (next applied.store).store :=
  rfl

/-- Going on twice is going on with both steps in a row. -/
theorem andThen_assoc (applied : Applied) (first second : Store → Applied) :
    (applied.andThen first).andThen second =
      applied.andThen fun store => (first store).andThen second := by
  simp only [andThen, List.append_assoc]

/-- What changes and reports nothing may be left out at the end. -/
theorem andThen_nothing (applied : Applied) :
    (applied.andThen fun store => ⟨store, [], []⟩) = applied := by
  simp only [andThen, List.append_nil]

/-- A run from a store that was reached is a run behind what reached it. -/
theorem foldl_andThen (items : List α) (step : α → Store → Applied) (applied : Applied) :
    items.foldl (fun applied item => applied.andThen (step item)) applied =
      applied.andThen (forEach items step) := by
  induction items generalizing applied with
  | nil => exact (andThen_nothing applied).symm
  | cons item items ih =>
    have tail (store : Store) : forEach (item :: items) step store =
        (step item store).andThen (forEach items step) := ih _
    rw [List.foldl_cons, ih, andThen_assoc]
    exact congrArg applied.andThen (funext fun store => (tail store).symm)

/-- The first item comes in front of the others. -/
theorem forEach_cons (item : α) (items : List α) (step : α → Store → Applied) (store : Store) :
    forEach (item :: items) step store = (step item store).andThen (forEach items step) :=
  foldl_andThen items step _

/-- A run over one item is the step for that item. -/
theorem forEach_singleton (item : α) (step : α → Store → Applied) (store : Store) :
    forEach [item] step store = step item store :=
  rfl

/-- Items in front come first. -/
theorem forEach_append (front behind : List α) (step : α → Store → Applied) (store : Store) :
    forEach (front ++ behind) step store =
      (forEach front step store).andThen (forEach behind step) := by
  rw [forEach, List.foldl_append, foldl_andThen]
  rfl

/-- What each step keeps the run keeps. -/
theorem forEach_keeps {motive : Store → Prop} {items : List α} {step : α → Store → Applied}
    (keeps : ∀ item ∈ items, ∀ store, motive store → motive (step item store).store)
    {store : Store} (start : motive store) : motive (forEach items step store).store := by
  induction items generalizing store with
  | nil => exact start
  | cons item items ih =>
    rw [forEach_cons]
    exact ih (fun other member => keeps other (List.mem_cons_of_mem item member))
      (keeps item List.mem_cons_self store start)

end Applied

namespace ArmorOperation

/-- The armor under a reference is that of the form under it. -/
theorem armorAt_eq_ok {store : Store} {reference : FormReference} {armor : Armor} :
    armorAt store reference = .ok armor ↔
      ∃ form, store.get? reference = some form ∧ form.record = .armor armor := by
  unfold armorAt
  split
  · next missing => simp [missing]
  · next form found =>
    split
    · next known same => simp [found, same]
    · next other same =>
      simp only [found, Option.some.injEq, exists_eq_left', false_iff, reduceCtorEq]
      intro armored
      exact same armor armored

/-- An edit is refused, or changes the armor that it was made for. -/
theorem apply_cases (target : FormReference) (operation : ArmorOperation) (store : Store) :
    (∃ failure opened, operation.apply target store = .refused store .armor failure opened) ∨
      ∃ keywords armor edited,
        (operation.references.mapM fun reference => store.resolveTyped reference .keyword) =
          .ok keywords ∧
        armorAt store target = .ok armor ∧ operation.edit keywords armor = .ok edited ∧
        operation.apply target store =
          ⟨store.modify target fun form => { form with record := .armor edited }, [],
            [target]⟩ := by
  unfold apply
  split
  · next failure _ => exact .inl ⟨failure, [], rfl⟩
  · next keywords resolved =>
    split
    · next failure _ => exact .inl ⟨failure, [target], rfl⟩
    · next edited changed =>
      obtain ⟨armor, opened, edit⟩ := Failure.bind_eq_ok.1 changed
      exact .inr ⟨keywords, armor, edited, resolved, opened, edit, rfl⟩

/-- An edit keeps the skeleton: it opens armors only. -/
theorem skeleton_apply (target : FormReference) (operation : ArmorOperation) (store : Store) :
    (operation.apply target store).store.skeleton = store.skeleton := by
  rcases operation.apply_cases target store with
    ⟨failure, opened, refused⟩ | ⟨keywords, armor, edited, _, opened, _, applied⟩
  · rw [refused]
    rfl
  · rw [applied]
    refine Store.skeleton_modify fun form found => ?_
    obtain ⟨form', found', armored⟩ := armorAt_eq_ok.1 opened
    rw [found, Option.some.injEq] at found'
    subst found'
    rw [armored]
    rfl

end ArmorOperation

/-- The armors that carry a keyword are those whose forms say so. -/
theorem Store.mem_armorsWith {store : Store} {keyword reference : FormReference} :
    reference ∈ store.armorsWith keyword ↔
      ∃ form armor, (reference, form) ∈ store.forms.entries ∧ form.record = .armor armor ∧
        armor.hasKeyword keyword = true := by
  simp only [Store.armorsWith, Store.ofType, List.mem_map, List.mem_filter, beq_iff_eq]
  constructor
  · rintro ⟨⟨named, form⟩, ⟨⟨member, _⟩, carries⟩, rfl⟩
    cases record : form.record with
    | keyword => simp [record, Record.armor?] at carries
    | armor armor =>
      rw [record] at carries
      exact ⟨form, armor, member, record, carries⟩
  · rintro ⟨form, armor, member, record, carries⟩
    refine ⟨(reference, form), ⟨⟨member, ?_⟩, ?_⟩, rfl⟩
    · rw [record]
      rfl
    · rw [record]
      exact carries

/-- An armor patch keeps the skeleton. -/
theorem ArmorPatch.skeleton_apply (patch : ArmorPatch) (store : Store) :
    (patch.apply store).store.skeleton = store.skeleton := by
  unfold apply
  split
  · rfl
  · next targets _ =>
    refine Applied.forEach_keeps (motive := fun reached => reached.skeleton = store.skeleton)
      (fun target _ reached same => ?_) rfl
    refine Applied.forEach_keeps (motive := fun reached => reached.skeleton = store.skeleton)
      (fun operation _ reached same => ?_) same
    exact (operation.skeleton_apply target reached).trans same

/-- A keyword patch fails, or gives a keyword that a text resolves to its new editor ID. -/
theorem KeywordPatch.apply_cases (patch : KeywordPatch) (store : Store) :
    (∃ failure, patch.apply store = .refused store .keyword failure []) ∨
      ∃ text reference, store.resolveTyped text .keyword = .ok reference ∧
        patch.apply store =
          ⟨store.modify reference fun form => { form with editorId := some patch.editorId }, [],
            [reference]⟩ := by
  unfold apply
  split
  · next failure _ => exact .inl ⟨failure, rfl⟩
  · next reference found =>
    right
    unfold target at found
    split at found
    · next text _ => exact ⟨text, reference, found, rfl⟩
    · split at found
      · cases found
      · next named _ _ => exact ⟨named.text, reference, found, rfl⟩

/-- A keyword patch keeps the skeleton. -/
theorem KeywordPatch.skeleton_apply (patch : KeywordPatch) (store : Store) :
    (patch.apply store).store.skeleton = store.skeleton := by
  rcases patch.apply_cases store with ⟨failure, refused⟩ | ⟨text, reference, _, applied⟩
  · rw [refused]
    rfl
  · rw [applied]
    exact Store.skeleton_modify fun form _ => rfl

end FormPatch
