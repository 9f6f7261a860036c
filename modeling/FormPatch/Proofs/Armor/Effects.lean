import FormPatch.Armor.Application
import FormPatch.Proofs.Armor.Slots
import FormPatch.Proofs.Store.References
import FormPatch.Proofs.Store.Skeleton

/-!
# What armor edits leave

An edit belongs to one field of an armor and leaves every other one as it is. Of its own field it
says what is there behind it: which slots are occupied, which name or number was given, and which
keywords are carried in which order. None of this refers to how an edit is made. Main statement: an
edit that succeeds leaves the one armor of which all this is true.
-/

namespace FormPatch

namespace SlotSet

/-- Sets that hold the same slots are one set. -/
theorem eq_of_mem_iff {left right : SlotSet}
    (same : ∀ slot, slot ∈ left.toList ↔ slot ∈ right.toList) : left = right := by
  have lists : left.toList = right.toList := by
    refine List.filter_congr fun slot member => ?_
    have held := same slot
    simp only [toList, List.mem_filter, member, true_and] at held
    exact Bool.eq_iff_iff.2 held
  rw [← left.ofList_toList, lists, right.ofList_toList]

/-- The empty set holds no slot. -/
theorem not_mem_zero (slot : Nat) : slot ∉ toList 0 := by
  rw [mem_toList]
  simp

/-- Added slots are held besides the old ones. -/
theorem mem_or {left right : SlotSet} {slot : Nat} :
    slot ∈ (left ||| right).toList ↔ slot ∈ left.toList ∨ slot ∈ right.toList := by
  simp only [mem_toList, UInt32.toNat_or, Nat.testBit_or, Bool.or_eq_true, and_or_left]

/-- Of the old slots those that are not removed are held. -/
theorem mem_and_not {left right : SlotSet} {slot : Nat} :
    slot ∈ (left &&& ~~~right).toList ↔ slot ∈ left.toList ∧ slot ∉ right.toList := by
  have bit (index : Nat) (within : index < 32) : (left &&& ~~~right).toNat.testBit index =
      (left.toNat.testBit index && !right.toNat.testBit index) := by
    have word : (left &&& ~~~right).toBitVec.getLsbD index =
        (left.toBitVec.getLsbD index && !right.toBitVec.getLsbD index) := by
      simp [within]
    exact word
  simp only [mem_toList]
  by_cases named : slot ∈ Slot.all
  · have bounds := Slot.mem_all.1 named
    rw [bit _ (by simp only [Slot.lowest, Slot.highest] at bounds ⊢; omega)]
    simp [named]
  · simp [named]

end SlotSet

namespace Armor

/-- Whether a field holds the same in two armors. -/
def AgreeAt (left right : Armor) : ArmorField → Prop
  | .slots => left.slots = right.slots
  | .fullName => left.fullName = right.fullName
  | .rating => left.rating = right.rating
  | .weight => left.weight = right.weight
  | .value => left.value = right.value
  | .keywords => left.keywords = right.keywords

/-- Whether every field but one holds the same in two armors. -/
def AgreeBut (field : ArmorField) (left right : Armor) : Prop :=
  ∀ other, other ≠ field → left.AgreeAt right other

/-- Fields that hold what a third armor holds hold the same. -/
theorem AgreeAt.trans_symm {left middle right : Armor} {field : ArmorField}
    (first : left.AgreeAt middle field) (second : right.AgreeAt middle field) :
    left.AgreeAt right field := by
  cases field <;> exact Eq.trans first (Eq.symm second)

/-- Armors that agree at every field are one armor. -/
theorem eq_of_agreeAt {left right : Armor} (agree : ∀ field, left.AgreeAt right field) :
    left = right :=
  Armor.mk.injEq .. ▸ ⟨agree .fullName, agree .slots, agree .rating, agree .weight, agree .value,
    agree .keywords⟩

end Armor

/-- What attaching keywords one after the other makes of a list of carried ones. -/
inductive Attaches : List FormReference → List FormReference → List FormReference → Prop
  /-- No keyword is left to attach. -/
  | done {carried : List FormReference} : Attaches [] carried carried
  /-- A keyword that is carried in some spelling is passed over. -/
  | again {keyword : FormReference} {keywords carried after : List FormReference}
      (carries : ∃ other ∈ carried, keyword.same other = true)
      (rest : Attaches keywords carried after) : Attaches (keyword :: keywords) carried after
  /-- A keyword that is carried in no spelling comes last. -/
  | new {keyword : FormReference} {keywords carried after : List FormReference}
      (missing : ∀ other ∈ carried, keyword.same other = false)
      (rest : Attaches keywords (carried ++ [keyword]) after) :
      Attaches (keyword :: keywords) carried after

/-- Attaching comes to one list only. -/
theorem Attaches.unique {keywords carried left right : List FormReference}
    (first : Attaches keywords carried left) (second : Attaches keywords carried right) :
    left = right := by
  induction first with
  | done =>
    cases second
    rfl
  | again carries _ ih =>
    cases second with
    | again _ rest => exact ih rest
    | new missing _ =>
      obtain ⟨other, member, same⟩ := carries
      rw [missing other member] at same
      cases same
  | new missing _ ih =>
    cases second with
    | again carries _ =>
      obtain ⟨other, member, same⟩ := carries
      rw [missing other member] at same
      cases same
    | new _ rest => exact ih rest

/-- Attaching keywords to an armor does this to its list and nothing else. -/
theorem Armor.exists_attaches (keywords : List FormReference) (armor : Armor) :
    ∃ after, Attaches keywords armor.keywords after ∧
      keywords.foldl Armor.attach armor = { armor with keywords := after } := by
  induction keywords generalizing armor with
  | nil => exact ⟨armor.keywords, .done, rfl⟩
  | cons keyword keywords ih =>
    obtain ⟨after, rest, attached⟩ := ih (armor.attach keyword)
    refine ⟨after, ?_⟩
    rw [List.foldl_cons, attached]
    by_cases carries : armor.hasKeyword keyword = true
    · have same : armor.attach keyword = armor := if_pos carries
      rw [same] at rest ⊢
      exact ⟨.again (List.any_eq_true.1 carries) rest, rfl⟩
    · have placed : armor.attach keyword =
          { armor with keywords := armor.keywords ++ [keyword] } := if_neg carries
      rw [placed] at rest ⊢
      rw [Armor.hasKeyword, Bool.not_eq_true, List.any_eq_false] at carries
      exact ⟨.new (fun other member => Bool.eq_false_iff.2 (carries other member)) rest, rfl⟩

namespace ArmorOperation

/-- The field that an edit belongs to. -/
def field : ArmorOperation → ArmorField
  | setSlots _ | addSlots _ | removeSlots _ | clearSlots => .slots
  | setFullName _ => .fullName
  | setRating _ => .rating
  | setWeight _ => .weight
  | setValue _ => .value
  | addKeywords _ | removeKeywords _ | clearKeywords => .keywords

/-- What an edit says of its field, given the keywords that its texts name. -/
def Effect (keywords : List FormReference) (before after : Armor) : ArmorOperation → Prop
  | setSlots slots => ∀ slot, slot ∈ after.slots.toList ↔ slot ∈ slots.toList
  | addSlots slots =>
    ∀ slot, slot ∈ after.slots.toList ↔ slot ∈ before.slots.toList ∨ slot ∈ slots.toList
  | removeSlots slots =>
    ∀ slot, slot ∈ after.slots.toList ↔ slot ∈ before.slots.toList ∧ slot ∉ slots.toList
  | clearSlots => ∀ slot, slot ∉ after.slots.toList
  | setFullName name => after.fullName = name
  | setRating rating => after.rating = rating.convert .single
  | setWeight weight => after.weight = weight.convert .single
  | setValue value => (after.value.toNat : Int) = value
  | addKeywords _ => Attaches keywords before.keywords after.keywords
  | removeKeywords _ =>
    after.keywords =
      before.keywords.filter fun carried => ∀ keyword ∈ keywords, keyword.same carried = false
  | clearKeywords => after.keywords = []

/-- Whether an armor is what an edit leaves of another one, given the keywords that its texts
name. -/
structure Leaves (operation : ArmorOperation) (keywords : List FormReference)
    (before after : Armor) : Prop where
  /-- Every field that the edit does not belong to stays. -/
  others : after.AgreeBut operation.field before
  /-- The field that it belongs to holds what it says. -/
  own : operation.Effect keywords before after

variable {operation : ArmorOperation} {keywords : List FormReference} {armor edited : Armor}

/-- A rating or a weight that passes its check is the given number in the shorter format. -/
theorem eq_of_checkStat {what : String} {given : Number.Double} {checked : Number.Single}
    (passed : checkStat what given = .ok checked) : checked = given.convert .single := by
  unfold checkStat at passed
  split at passed
  · exact (Except.ok.inj passed).symm
  · cases passed

/-- A value that passes its check is the given integer. -/
theorem toNat_of_checkValue {given : Int} {checked : UInt32}
    (passed : checkValue given = .ok checked) : (checked.toNat : Int) = given := by
  unfold checkValue at passed
  split at passed
  · next within =>
    obtain rfl := Except.ok.inj passed
    have small : given.toNat < UInt32.size := by omega
    exact (congrArg Int.ofNat (UInt32.toNat_ofNat_of_lt' small)).trans
      (Int.toNat_of_nonneg within.1)
  · cases passed

/-- An edit leaves the fields that it does not belong to. -/
theorem others_of_edit (made : operation.edit keywords armor = .ok edited) :
    edited.AgreeBut operation.field armor := by
  intro other apart
  cases operation with
  | setSlots | addSlots | removeSlots | clearSlots | setFullName | removeKeywords
    | clearKeywords =>
    obtain rfl := Except.ok.inj made
    cases other <;> simp [Armor.AgreeAt, Armor.detach, field] at apart ⊢
  | setRating | setWeight | setValue =>
    obtain ⟨checked, _, put⟩ := Failure.bind_eq_ok.1 made
    obtain rfl := Except.ok.inj put
    cases other <;> simp [Armor.AgreeAt, field] at apart ⊢
  | addKeywords =>
    obtain ⟨after, _, attached⟩ := armor.exists_attaches keywords
    obtain rfl := attached.symm.trans (Except.ok.inj made)
    cases other <;> simp [Armor.AgreeAt, field] at apart ⊢

/-- An edit makes of its field what it says. -/
theorem effect_of_edit (made : operation.edit keywords armor = .ok edited) :
    operation.Effect keywords armor edited := by
  cases operation with
  | setSlots slots =>
    obtain rfl := Except.ok.inj made
    exact fun slot => Iff.rfl
  | addSlots slots =>
    obtain rfl := Except.ok.inj made
    exact fun slot => SlotSet.mem_or
  | removeSlots slots =>
    obtain rfl := Except.ok.inj made
    exact fun slot => SlotSet.mem_and_not
  | clearSlots =>
    obtain rfl := Except.ok.inj made
    exact SlotSet.not_mem_zero
  | setFullName name =>
    obtain rfl := Except.ok.inj made
    rfl
  | setRating | setWeight =>
    obtain ⟨checked, passed, put⟩ := Failure.bind_eq_ok.1 made
    obtain rfl := Except.ok.inj put
    exact eq_of_checkStat passed
  | setValue value =>
    obtain ⟨checked, passed, put⟩ := Failure.bind_eq_ok.1 made
    obtain rfl := Except.ok.inj put
    exact toNat_of_checkValue passed
  | addKeywords texts =>
    obtain ⟨after, attaches, attached⟩ := armor.exists_attaches keywords
    obtain rfl := attached.symm.trans (Except.ok.inj made)
    exact attaches
  | removeKeywords texts =>
    obtain rfl := Except.ok.inj made
    refine List.filter_congr fun carried _ => ?_
    have alike : (fun keyword : FormReference => keyword.same carried) = carried.same :=
      funext fun keyword => keyword.same_comm carried
    rw [Bool.eq_iff_iff, Bool.not_eq_true', decide_eq_true_eq, ← alike, List.any_eq_false]
    simp
  | clearKeywords =>
    obtain rfl := Except.ok.inj made
    rfl

/-- What an edit says of its field decides the field. -/
theorem Effect.unique {left right : Armor} (first : operation.Effect keywords armor left)
    (second : operation.Effect keywords armor right) : left.AgreeAt right operation.field := by
  cases operation with
  | setSlots | addSlots | removeSlots =>
    exact SlotSet.eq_of_mem_iff fun slot => (first slot).trans (second slot).symm
  | clearSlots => exact SlotSet.eq_of_mem_iff fun slot => iff_of_false (first slot) (second slot)
  | setFullName | setRating | setWeight | removeKeywords | clearKeywords =>
    exact first.trans second.symm
  | setValue => exact UInt32.toNat_inj.1 (Int.ofNat_inj.1 (first.trans second.symm))
  | addKeywords => exact first.unique second

/-- Where an edit is made, exactly what comes out is what it leaves. -/
theorem leaves_iff_of_edit {revised : Armor}
    (made : operation.edit keywords armor = .ok revised) :
    operation.Leaves keywords armor edited ↔ edited = revised := by
  constructor
  · rintro ⟨others, own⟩
    refine Armor.eq_of_agreeAt fun field => ?_
    by_cases apart : field = operation.field
    · exact apart ▸ own.unique (effect_of_edit made)
    · exact (others field apart).trans_symm (others_of_edit made field apart)
  · rintro rfl
    exact ⟨others_of_edit made, effect_of_edit made⟩

end ArmorOperation

end FormPatch
