import FormPatch.Text.Digits

/-!
# Biped slots

An armor occupies numbered slots of a body. A set of slots is a word whose lowest bit stands for
the lowest slot; slot zero means no slot.
-/

namespace FormPatch

namespace Slot

/-- The lowest slot. -/
def lowest : Nat := 30

/-- The highest slot. -/
def highest : Nat := 61

/-- Every slot, ascending. -/
def all : List Nat := (List.range (highest + 1 - lowest)).map (lowest + ·)

/-- Whether a number names a slot. -/
def isSlot (slot : Nat) : Bool := lowest ≤ slot && slot ≤ highest

/-- Whether a number may be written where a slot is expected. -/
def isWritable (slot : Nat) : Bool := slot == 0 || isSlot slot

/-- The set that holds one slot; a number that names no slot gives the empty set. -/
def flag (slot : Nat) : UInt32 :=
  if isSlot slot then 1 <<< UInt32.ofNat (slot - lowest) else 0

end Slot

/-- A set of slots. -/
abbrev SlotSet := UInt32

namespace SlotSet

/-- The set of the slots in a list. -/
def ofList (slots : List Nat) : SlotSet :=
  slots.foldl (fun set slot => set ||| Slot.flag slot) 0

/-- The slots in a set, ascending. -/
def toList (set : SlotSet) : List Nat :=
  Slot.all.filter fun slot => set &&& Slot.flag slot != 0

/-- The slots of a set between separators; the empty set is written as slot zero. -/
def text (set : SlotSet) (separator : String) : String :=
  match set.toList with
  | [] => "0"
  | slots => separator.intercalate (slots.map Nat.repr)

end SlotSet

end FormPatch
