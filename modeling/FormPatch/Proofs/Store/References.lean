import FormPatch.FormReference
import FormPatch.Proofs.Text.Case

/-!
# References as keys

References are the same key exactly when their numbers are equal and the names of their plugins
differ in the case of ASCII letters at most, character by character. The order of references is
total, and it finds two of them equal exactly when they are the same key. So does every hasher: it
comes from one state to the same state.
-/

namespace FormPatch

namespace FormReference

variable {left right : FormReference}

/-- A reference is the same as itself. -/
theorem same_self (reference : FormReference) : reference.same reference = true :=
  beq_self_eq_true _

/-- Being the same reference goes both ways. -/
theorem same_comm (left right : FormReference) : left.same right = right.same left :=
  Bool.beq_comm

/-- Equal references are the same as one reference at once. -/
theorem same_congr (same : left.same right = true) : left.same = right.same := by
  funext other
  rw [FormReference.same, FormReference.same, beq_iff_eq.1 same]

/-- References are the same key when their numbers are equal and their plugins' names match. -/
theorem same_iff : left.same right = true ↔
    left.id = right.id ∧ List.Forall₂ Text.Matches left.plugin.toList right.plugin.toList := by
  rw [← Text.agree_iff_matches, Text.agree_iff, same, beq_iff_eq, key, key, Prod.mk.injEq, and_comm]

/-- References are the same key when no hasher tells them apart. -/
theorem same_iff_hash : left.same right = true ↔
    ∀ (σ : Type) (hasher : Hasher σ) (state : σ),
      left.hash hasher state = right.hash hasher state := by
  rw [same, beq_iff_eq, key, key, Prod.mk.injEq]
  constructor
  · rintro ⟨plugin, id⟩ σ hasher state
    rw [hash, hash, plugin, id]
  · intro alike
    -- A hasher that remembers what it took in tells any two keys apart.
    have remembered := alike (List (String ⊕ UInt32))
      ⟨fun text state => .inl text :: state, fun number state => .inr number :: state⟩ []
    simp only [hash, List.cons.injEq, Sum.inr.injEq, Sum.inl.injEq, and_true] at remembered
    exact remembered.symm

/-- The other way round, references compare the other way round. -/
theorem compare_swap (left right : FormReference) :
    compare right left = (compare left right).swap :=
  Std.OrientedCmp.eq_swap

/-- Of two references one is at most the other one. -/
theorem isLE_total (left right : FormReference) :
    (compare left right).isLE = true ∨ (compare right left).isLE = true := by
  rw [compare_swap left right]
  cases compare left right <;> simp

/-- References that are at most each other are the same key. -/
theorem same_of_isLE (le : (compare left right).isLE = true)
    (ge : (compare right left).isLE = true) : left.same right = true := by
  rw [compare_swap left right] at ge
  rw [← compare_eq_iff]
  cases found : compare left right with
  | eq => rfl
  | lt => simp [found] at ge
  | gt => simp [found] at le

end FormReference

end FormPatch
