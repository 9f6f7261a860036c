import FormPatch.Store

/-!
# Views of a store

A view of a store shows its load order and, under each reference, one part of the form: its record
type, its record or its editor ID. Two stores of one view cannot be told apart by what looks at
that part only. A change of a form keeps the views of the parts that it keeps, and what it makes of
a part it makes of the view.
-/

namespace FormPatch

namespace Store

variable {β γ : Type}

/-- Equal references have one form. -/
theorem get?_congr (store : Store) {left right : FormReference} (same : compare left right = .eq) :
    store.get? left = store.get? right := by
  simp only [get?, OrderedMap.get?, Std.TransCmp.congr_left same]

/-- The load order, and the reference and one part of each form. -/
def view (part : Form → β) (store : Store) : List String × List (FormReference × β) :=
  (store.plugins, store.forms.entries.map fun entry => (entry.1, part entry.2))

/-- Changing the form under a reference keeps the view of each part that the change keeps. -/
theorem view_modify (part : Form → β) {store : Store} {reference : FormReference}
    {change : Form → Form}
    (keeps : ∀ form, store.get? reference = some form → part (change form) = part form) :
    (store.modify reference change).view part = store.view part := by
  refine Prod.ext rfl ?_
  simp only [view, modify, OrderedMap.modify, List.map_map]
  refine List.map_congr_left fun entry member => ?_
  simp only [Function.comp]
  split
  · next touched =>
    have found := store.forms.get?_of_mem member (beq_iff_eq.1 touched)
    rw [keeps entry.2 found]
  · rfl

section Alike

variable {left right : Store}

/-- The part of the form under a reference is read off the view. -/
theorem get?_of_view (part : Form → β) (same : left.view part = right.view part)
    (reference : FormReference) :
    (left.get? reference).map part = (right.get? reference).map part := by
  have shown (store : Store) : (store.get? reference).map part =
      ((store.view part).2.find? fun entry => compare reference entry.1 == .eq).map Prod.snd := by
    simp only [get?, OrderedMap.get?, view, List.find?_map, Option.map_map]
    rfl
  rw [shown, shown, same]

variable {part : Form → β}

/-- A view of a part shows what the part determines. -/
theorem view_comp (same : left.view part = right.view part) (smaller : β → γ) :
    left.view (smaller ∘ part) = right.view (smaller ∘ part) := by
  have shown (store : Store) : store.view (smaller ∘ part) =
      ((store.view part).1, (store.view part).2.map fun entry => (entry.1, smaller entry.2)) := by
    simp only [view, List.map_map]
    rfl
  rw [shown, shown, same]

/-- A change that acts on a part acts alike on stores of one view of it. -/
theorem view_modify_of_view (same : left.view part = right.view part) (change : Form → Form)
    (action : β → β) (acts : ∀ form, part (change form) = action (part form))
    (reference : FormReference) :
    (left.modify reference change).view part = (right.modify reference change).view part := by
  have shown (store : Store) : (store.modify reference change).view part =
      ((store.view part).1, (store.view part).2.map fun entry =>
        if compare reference entry.1 == .eq then (entry.1, action entry.2) else entry) := by
    refine Prod.ext rfl ?_
    simp only [view, modify, OrderedMap.modify, List.map_map]
    refine List.map_congr_left fun entry _ => ?_
    simp only [Function.comp]
    split
    · rw [acts]
    · rfl
  rw [shown, shown, same]

/-- Stores are equal when two views agree on them whose parts make up a form. -/
theorem eq_of_views {other : Form → γ}
    (whole : Function.Injective fun form => (part form, other form))
    (same : left.view part = right.view part) (same' : left.view other = right.view other) :
    left = right := by
  have both : left.view (fun form => (part form, other form)) =
      right.view fun form => (part form, other form) := by
    have shown (store : Store) : store.view (fun form => (part form, other form)) =
        ((store.view part).1, ((store.view part).2.zip (store.view other).2).map fun entry =>
          (entry.1.1, entry.1.2, entry.2.2)) := by
      simp only [view, List.zip_map', List.map_map]
      rfl
    rw [shown, shown, same, same']
  obtain ⟨plugins, forms⟩ := left
  obtain ⟨plugins', forms'⟩ := right
  obtain ⟨rfl, entries⟩ := Prod.mk.inj both
  refine congrArg (Store.mk plugins) (OrderedMap.ext ?_)
  refine (List.map_inj_right fun entry entry' equal => ?_).1 entries
  obtain ⟨reference, parts⟩ := Prod.mk.inj equal
  exact Prod.ext reference (whole parts)

end Alike

end Store

end FormPatch
