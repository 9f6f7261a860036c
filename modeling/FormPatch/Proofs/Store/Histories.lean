import FormPatch.Proofs.Store.Editions
import FormPatch.Proofs.Store.References
import FormPatch.Proofs.Store.View
import Mathlib.Data.Set.Card

/-!
# Histories of a store

Forms are put into a store, taken out and edited in place, in any order and under any spelling of
their references. What a store holds under a reference is the form that was put there last under any
spelling of it, with the edits in place since then, unless one of its spellings was taken out since.

Main statement: references are the keys of an ordered map. Their order is total and agrees with
their equality and with every hasher, and behind every history the entries of a store ascend, none
has the key of another one, they are as many as there are keys that a form is found under, each
reference finds what its key's history has left, and the pages of the map list its keys in order.
-/

namespace FormPatch

namespace Store

/-- A step in the history of a store. -/
inductive Edit where
  /-- Puts a form under a reference. -/
  | insert (reference : FormReference) (form : Form)
  /-- Takes out the form under a reference. -/
  | erase (reference : FormReference)
  /-- Changes the form under a reference in place. -/
  | modify (reference : FormReference) (change : Form → Form)

namespace Edit

/-- The store behind a step. -/
def run : Edit → Store → Store
  | insert reference form, store => store.insert reference form
  | erase reference, store => store.erase reference
  | modify reference change, store => store.modify reference change

/-- Whether a step decides what stands under a reference, whatever stood there. -/
def settles (reference : FormReference) : Edit → Bool
  | insert other _ => reference.same other
  | erase other => reference.same other
  | modify _ _ => false

/-- The form that a step puts into the store. -/
def stored? : Edit → Option Form
  | insert _ form => some form
  | erase _ => none
  | modify _ _ => none

/-- What a step that does not decide makes of the form under a reference. -/
def revise (reference : FormReference) : Edit → Form → Form
  | insert _ _ => id
  | erase _ => id
  | modify other change => if reference.same other then change else id

/-- Under a reference stands what a step puts there, or what it makes of what stood there. -/
theorem get?_run (edit : Edit) (store : Store) (reference : FormReference) :
    (edit.run store).get? reference =
      if edit.settles reference = true then edit.stored?
      else (store.get? reference).map (edit.revise reference) := by
  cases edit with
  | insert other form =>
    show (store.forms.insert other form).get? reference = _
    simp only [OrderedMap.get?_insert, FormReference.compare_eq_iff, settles, stored?, revise,
      Option.map_id_fun, id, get?]
  | erase other =>
    show (store.forms.erase other).get? reference = _
    simp only [OrderedMap.get?_erase, FormReference.compare_eq_iff, settles, stored?, revise,
      Option.map_id_fun, id, get?]
  | modify other change =>
    show (store.forms.modify other change).get? reference = _
    simp only [OrderedMap.get?_modify, FormReference.compare_eq_iff, settles, revise, get?]
    split <;> simp

end Edit

/-- The store behind a history. -/
def runAll (store : Store) (edits : List Edit) : Store :=
  edits.foldl (fun store edit => edit.run store) store

/-- The edition behind a step. -/
def Edit.edition : Edit → Edition → Edition
  | insert reference form, edition => edition.insert reference form
  | erase reference, edition => edition.erase reference
  | modify reference change, edition => edition.modify reference change

/-- What the steps of a history make of a form under a reference when none of them decides. -/
def reviseAll (reference : FormReference) (edits : List Edit) (form : Form) : Form :=
  edits.foldl (fun form edit => edit.revise reference form) form

/-- Whether a history leaves a form under a reference: a form that stood there at the start, or that
was put there under some spelling, and that no later step has decided about is what the edits in
place behind that make of it. -/
def Leaves (store : Store) (edits : List Edit) (reference : FormReference) (form : Form) : Prop :=
  ∃ value behind,
    (behind = edits ∧ store.get? reference = some value ∨
      ∃ front stored, edits = front ++ .insert stored value :: behind ∧
        reference.same stored = true) ∧
    (∀ edit ∈ behind, edit.settles reference = false) ∧
    form = reviseAll reference behind value

/-- Steps that do not decide about a reference edit its form in place. -/
theorem get?_runAll_of_settles {reference : FormReference} {edits : List Edit}
    (undecided : ∀ edit ∈ edits, edit.settles reference = false) (store : Store) :
    (store.runAll edits).get? reference =
      (store.get? reference).map (reviseAll reference edits) := by
  induction edits generalizing store with
  | nil =>
    have nothing : reviseAll reference [] = id := rfl
    rw [nothing, Option.map_id_fun]
    rfl
  | cons edit edits ih =>
    obtain ⟨first, others⟩ := List.forall_mem_cons.1 undecided
    have behind : ((edit.run store).runAll edits).get? reference = _ := ih others (edit.run store)
    rw [Edit.get?_run, if_neg (by simp [first]), Option.map_map] at behind
    exact behind

/-- A store holds under a reference what its history leaves there. -/
theorem get?_runAll_eq_some_iff {reference : FormReference} {edits : List Edit} {store : Store}
    {form : Form} :
    (store.runAll edits).get? reference = some form ↔ store.Leaves edits reference form := by
  constructor
  · intro found
    induction edits using List.reverseRecOn generalizing form with
    | nil => exact ⟨form, [], .inl ⟨rfl, found⟩, by simp, rfl⟩
    | append_singleton edits edit ih =>
      have last : store.runAll (edits ++ [edit]) = edit.run (store.runAll edits) := by
        simp [runAll]
      rw [last, Edit.get?_run] at found
      split at found
      · next settled =>
        -- The last step decides, so it puts the form there.
        cases edit with
        | insert stored value =>
          cases found
          exact ⟨form, [], .inr ⟨edits, stored, rfl, settled⟩, by simp, rfl⟩
        | erase other => cases found
        | modify other change => cases found
      · next undecided =>
        obtain ⟨earlier, before, rfl⟩ := Option.map_eq_some_iff.1 found
        obtain ⟨value, behind, origin, quiet, rfl⟩ := ih before
        refine ⟨value, behind ++ [edit], ?_, ?_, by simp [reviseAll]⟩
        · rcases origin with ⟨rfl, start⟩ | ⟨front, stored, rfl, same⟩
          · exact .inl ⟨rfl, start⟩
          · exact .inr ⟨front, stored, by simp, same⟩
        · refine List.forall_mem_append.2 ⟨quiet, ?_⟩
          simpa using undecided
  · rintro ⟨value, behind, origin, quiet, rfl⟩
    rcases origin with ⟨rfl, start⟩ | ⟨front, stored, rfl, same⟩
    · rw [get?_runAll_of_settles quiet, start]
      rfl
    · have split : store.runAll (front ++ .insert stored value :: behind) =
          ((Edit.insert stored value).run (store.runAll front)).runAll behind := by
        simp [runAll]
      have settled : (Edit.insert stored value).settles reference = true := same
      rw [split, get?_runAll_of_settles quiet, Edit.get?_run, if_pos settled]
      rfl

section Keys

variable (store : Store)

/-- A form is found under the references whose key an entry has. -/
theorem isSome_get?_iff {reference : FormReference} :
    (store.get? reference).isSome = true ↔
      ∃ entry ∈ store.forms.entries, reference.same entry.1 = true := by
  simp only [get?, OrderedMap.get?, Option.isSome_map, List.find?_isSome, beq_iff_eq,
    FormReference.compare_eq_iff]

/-- Entries ascend, so none has the key of another one. -/
theorem ascending_entries : store.forms.entries.Pairwise fun left right =>
    compare left.1 right.1 = .lt ∧ left.1.same right.1 = false := by
  refine store.forms.ascending.imp fun {left right} less => ⟨less, ?_⟩
  rw [Bool.eq_false_iff, Ne, ← FormReference.compare_eq_iff, less]
  simp

/-- There are as many entries as keys that a form is found under. -/
theorem size_eq_ncard : store.forms.size =
    {key | ∃ reference, FormReference.key reference = key ∧
      (store.get? reference).isSome = true}.ncard := by
  have apart : (store.forms.entries.map fun entry => entry.1.key).Nodup :=
    List.pairwise_map.2 (store.ascending_entries.imp fun apart same => by
      rw [FormReference.same, same, beq_self_eq_true] at apart
      cases apart.2)
  have found : {key | ∃ reference, FormReference.key reference = key ∧
      (store.get? reference).isSome = true} =
      ((store.forms.entries.map fun entry => entry.1.key).toFinset : Set (String × UInt32)) := by
    ext key
    simp only [Set.mem_ofPred_eq, isSome_get?_iff, List.coe_toFinset, List.mem_map]
    constructor
    · rintro ⟨reference, rfl, entry, member, same⟩
      exact ⟨entry, member, (beq_iff_eq.1 same).symm⟩
    · rintro ⟨entry, member, rfl⟩
      exact ⟨entry.1, rfl, entry, member, entry.1.same_self⟩
  rw [found, Set.ncard_coe_finset, List.toFinset_card_of_nodup apart, List.length_map]
  rfl

end Keys

end Store

namespace Edition

/-- The edition behind a history. -/
def runAll (edition : Edition) (edits : List Store.Edit) : Edition :=
  edits.foldl (fun edition edit => edit.edition edition) edition

/-- An edition holds the store that its history leads to. -/
theorem store_runAll (edition : Edition) (edits : List Store.Edit) :
    (edition.runAll edits).store = edition.store.runAll edits := by
  induction edits generalizing edition with
  | nil => rfl
  | cons edit edits ih =>
    have first : (edit.edition edition).store = edit.run edition.store := by cases edit <;> rfl
    have behind : ((edit.edition edition).runAll edits).store = _ := ih (edit.edition edition)
    rwa [first] at behind

/-- Behind a history the pages still list the keys of the store. -/
theorem IsPaged.runAll {edition : Edition} (paged : edition.IsPaged) (edits : List Store.Edit) :
    (edition.runAll edits).IsPaged := by
  induction edits generalizing edition with
  | nil => exact paged
  | cons edit edits ih =>
    cases edit with
    | insert reference form => exact ih (paged.insert reference form)
    | erase reference => exact ih (paged.erase reference)
    | modify reference change => exact ih (paged.modify reference change)

end Edition

/-- References are the keys of an ordered map. They are the same key when their numbers are equal
and the names of their plugins match character by character, up to the case of ASCII letters; then
and only then they compare equal, and no hasher tells them apart; and they are totally ordered.
Behind every history of a store its entries ascend, and none has the key of another one; they are as
many as there are keys that a form is found under; and under every spelling of a key stands the form
that was put there last under any spelling, with the edits in place since then, unless it was taken
out since. The pages on which the store lies, from its start on new ones, list the keys of its
entries in this order. -/
theorem references_as_keys :
    (∀ left right : FormReference,
      (left.same right = true ↔ left.id = right.id ∧
        List.Forall₂ Text.Matches left.plugin.toList right.plugin.toList) ∧
      (compare left right = .eq ↔ left.same right = true) ∧
      (left.same right = true ↔ ∀ (σ : Type) (hasher : Hasher σ) (state : σ),
        left.hash hasher state = right.hash hasher state) ∧
      ((compare left right).isLE = true ∨ (compare right left).isLE = true) ∧
      ((compare left right).isLE = true → (compare right left).isLE = true →
        left.same right = true) ∧
      compare right left = (compare left right).swap) ∧
    (∀ first second third : FormReference, (compare first second).isLE = true →
      (compare second third).isLE = true → (compare first third).isLE = true) ∧
    ∀ (edits : List Store.Edit) (store : Store),
      ((store.runAll edits).forms.entries.Pairwise fun left right =>
        compare left.1 right.1 = .lt ∧ left.1.same right.1 = false) ∧
      (store.runAll edits).forms.size =
        {key | ∃ reference, FormReference.key reference = key ∧
          ((store.runAll edits).get? reference).isSome = true}.ncard ∧
      (∀ left right, left.same right = true →
        (store.runAll edits).get? left = (store.runAll edits).get? right) ∧
      (∀ reference form, (store.runAll edits).get? reference = some form ↔
        store.Leaves edits reference form) ∧
      ((Edition.empty.reload store).runAll edits).store = store.runAll edits ∧
      ((Edition.empty.reload store).runAll edits).pages.keys =
        (store.runAll edits).forms.entries.map Prod.fst := by
  refine ⟨fun left right => ?_, fun _ _ _ => Std.TransCmp.isLE_trans, fun edits store => ?_⟩
  · exact ⟨FormReference.same_iff, FormReference.compare_eq_iff, FormReference.same_iff_hash,
      FormReference.isLE_total left right, FormReference.same_of_isLE,
      FormReference.compare_swap left right⟩
  · have led := (Edition.empty.reload store).store_runAll edits
    exact ⟨(store.runAll edits).ascending_entries, (store.runAll edits).size_eq_ncard,
      fun left right same => (store.runAll edits).get?_congr (FormReference.compare_eq_iff.2 same),
      fun reference form => Store.get?_runAll_eq_some_iff, led, by
        rw [((Edition.empty.isPaged_reload store).runAll edits).keys, led]
        rfl⟩

end FormPatch
