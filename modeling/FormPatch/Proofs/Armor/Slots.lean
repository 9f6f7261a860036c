import FormPatch.Slots

/-!
# Sets of slots and their lists

A set of slots has one bit for each slot, so the set of the slots in its list is the set itself.
-/

namespace FormPatch

namespace Slot

/-- The flag of a slot is one bit, which no other slot has. -/
theorem testBit_flag {slot : Nat} (member : slot ∈ all) (index : Nat) :
    (flag slot).toNat.testBit index = decide (slot - lowest = index) := by
  have one : ∀ slot ∈ all, (flag slot).toNat = 1 <<< (slot - lowest) := by decide
  rw [one slot member, Nat.one_shiftLeft, Nat.testBit_two_pow]

/-- The slots are the numbers from the lowest to the highest one. -/
theorem mem_all {slot : Nat} : slot ∈ all ↔ lowest ≤ slot ∧ slot ≤ highest := by
  simp only [all, List.mem_map, List.mem_range, lowest, highest]
  constructor
  · rintro ⟨index, bound, rfl⟩
    omega
  · rintro ⟨above, below⟩
    exact ⟨slot - 30, by omega, by omega⟩

/-- Every slot may be written. -/
theorem isWritable_of_mem_all {slot : Nat} (member : slot ∈ all) : isWritable slot = true := by
  have bounds := mem_all.1 member
  simp [isWritable, isSlot, bounds]

end Slot

namespace SlotSet

/-- A set has a bit when it had it at first or a slot has it. -/
theorem testBit_foldl (slots : List Nat) (start : SlotSet) (index : Nat) :
    (slots.foldl (fun set slot => set ||| Slot.flag slot) start).toNat.testBit index =
      (start.toNat.testBit index ||
        slots.any fun slot => (Slot.flag slot).toNat.testBit index) := by
  induction slots generalizing start with
  | nil => simp
  | cons slot others ih =>
    rw [List.foldl_cons, ih, UInt32.toNat_or, Nat.testBit_or, List.any_cons, Bool.or_assoc]

/-- A set holds a slot when it has the slot's bit. -/
theorem mem_toList {set : SlotSet} {slot : Nat} :
    slot ∈ set.toList ↔ slot ∈ Slot.all ∧ set.toNat.testBit (slot - Slot.lowest) = true := by
  rw [toList, List.mem_filter]
  refine and_congr_right fun member => ?_
  have common (index : Nat) : (set &&& Slot.flag slot).toNat.testBit index =
      (set.toNat.testBit index && decide (slot - Slot.lowest = index)) := by
    rw [UInt32.toNat_and, Nat.testBit_and, Slot.testBit_flag member]
  rw [bne_iff_ne]
  constructor
  · intro some
    apply Classical.byContradiction
    intro clear
    refine some (UInt32.toNat_inj.1 (Nat.eq_of_testBit_eq fun index => ?_))
    rw [common, UInt32.toNat_zero, Nat.zero_testBit, Bool.and_eq_false_iff,
      decide_eq_false_iff_not]
    by_cases same : slot - Slot.lowest = index
    · exact .inl (by simpa [same] using clear)
    · exact .inr same
  · intro bit none
    have held := common (slot - Slot.lowest)
    simp [none, bit] at held

/-- The set of the slots in the list of a set is the set. -/
theorem ofList_toList (set : SlotSet) : ofList set.toList = set := by
  apply UInt32.toNat_inj.1
  apply Nat.eq_of_testBit_eq
  intro index
  rw [ofList, testBit_foldl, UInt32.toNat_zero, Nat.zero_testBit, Bool.false_or, Bool.eq_iff_iff,
    List.any_eq_true]
  constructor
  · rintro ⟨slot, member, bit⟩
    obtain ⟨named, held⟩ := mem_toList.1 member
    rw [Slot.testBit_flag named, decide_eq_true_eq] at bit
    rwa [← bit]
  · intro bit
    have bound : index < 32 := by
      apply Classical.byContradiction
      intro above
      have clear : set.toNat.testBit index = false :=
        Nat.testBit_lt_two_pow (Nat.lt_of_lt_of_le set.toNat_lt
          (Nat.pow_le_pow_right (by decide) (by omega)))
      simp [clear] at bit
    have named : Slot.lowest + index ∈ Slot.all := by
      rw [Slot.mem_all]
      simp only [Slot.lowest, Slot.highest]
      omega
    refine ⟨Slot.lowest + index, mem_toList.2 ⟨named, ?_⟩, ?_⟩
    · rwa [Nat.add_sub_cancel_left]
    · rw [Slot.testBit_flag named, Nat.add_sub_cancel_left, decide_eq_true rfl]

/-- The slots in the list of a set may be written. -/
theorem isWritable_of_mem {set : SlotSet} {slot : Nat} (member : slot ∈ set.toList) :
    Slot.isWritable slot = true :=
  Slot.isWritable_of_mem_all (mem_toList.1 member).1

/-- The slots that are written for a set: those that it holds, or slot zero. -/
def written (set : SlotSet) : List Nat :=
  if set.toList = [] then [0] else set.toList

/-- For every set there is a slot to write. -/
theorem written_ne_nil (set : SlotSet) : set.written ≠ [] := by
  unfold written
  split
  · exact List.cons_ne_nil _ _
  · assumption

/-- The slots that are written for a set may be written. -/
theorem isWritable_of_mem_written {set : SlotSet} {slot : Nat} (member : slot ∈ set.written) :
    Slot.isWritable slot = true := by
  unfold written at member
  split at member
  · rw [List.mem_singleton.1 member]
    decide
  · exact isWritable_of_mem member

/-- The set of the written slots is the set: slot zero adds nothing. -/
theorem ofList_written (set : SlotSet) : ofList set.written = set := by
  unfold written
  split
  · next empty =>
    have same := set.ofList_toList
    rw [empty] at same
    rw [← same]
    decide
  · exact set.ofList_toList

/-- A set is written as its written slots between separators. -/
theorem text_eq (set : SlotSet) (separator : String) :
    set.text separator = separator.intercalate (set.written.map Nat.repr) := by
  unfold text written
  split
  · next empty =>
    rw [if_pos empty]
    rfl
  · next some =>
    rw [if_neg some]

end SlotSet

end FormPatch
