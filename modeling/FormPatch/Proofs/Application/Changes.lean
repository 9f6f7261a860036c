import FormPatch.Proofs.Application.Runs
import FormPatch.Proofs.Number.Range
import FormPatch.Proofs.Statement.Parts

/-!
# What a run may change

A run keeps the skeleton of its store and changes the form under each reference as its record type
allows. Armor patches change armors only, keep editor IDs, and give ratings and weights that a
patch holds and that lie in their range. Keyword patches change nothing but the editor IDs of
keywords. What every expression of a tree keeps applying the tree keeps, whichever guards hold.
-/

namespace FormPatch

section Tree

variable {α : Type} {patch : α → Store → Applied} {motive : Store → Prop}

mutual

/-- What the expressions of a statement keep applying it keeps. -/
theorem Statement.apply_keeps (statement : Statement α)
    (keeps : ∀ payload ∈ statement.payloads, ∀ store, motive store →
      motive (patch payload store).store)
    {store : Store} (start : motive store) : motive (statement.apply patch store).store := by
  cases statement with
  | expression payload => exact keeps payload List.mem_cons_self store start
  | conditional guard body otherwise =>
    simp only [Statement.payloads, List.forall_mem_append] at keeps
    simp only [Statement.apply, Applied.store_andThen]
    split
    · exact applyAll_keeps body keeps.1 start
    · exact Otherwise.apply_keeps otherwise keeps.2 start

/-- What the expressions of statements keep applying the statements keeps. -/
theorem applyAll_keeps (statements : List (Statement α))
    (keeps : ∀ payload ∈ Statement.payloadsAll statements, ∀ store, motive store →
      motive (patch payload store).store)
    {store : Store} (start : motive store) : motive (applyAll patch statements store).store := by
  cases statements with
  | nil => exact start
  | cons statement rest =>
    simp only [Statement.payloadsAll, List.forall_mem_append] at keeps
    exact applyAll_keeps rest keeps.2 (Statement.apply_keeps statement keeps.1 start)

/-- What the expressions of a chain keep applying it keeps. -/
theorem Otherwise.apply_keeps (otherwise : Otherwise α)
    (keeps : ∀ payload ∈ otherwise.payloads, ∀ store, motive store →
      motive (patch payload store).store)
    {store : Store} (start : motive store) : motive (otherwise.apply patch store).store := by
  cases otherwise with
  | nothing => exact start
  | block body => exact applyAll_keeps body keeps start
  | branch guard body otherwise =>
    simp only [Otherwise.payloads, List.forall_mem_append] at keeps
    simp only [Otherwise.apply, Applied.store_andThen]
    split
    · exact applyAll_keeps body keeps.1 start
    · exact Otherwise.apply_keeps otherwise keeps.2 start

end

end Tree

/-- What a run may make of a store, given what it may make of a form: the load order, the
references in their spelling and the record types stay, and each form stays under its reference
and changes as it may. -/
structure Store.Changes (change : Form → Form → Prop) (before after : Store) : Prop where
  /-- The load order, the references and the record types stay. -/
  skeleton : after.skeleton = before.skeleton
  /-- Each form changes as it may. -/
  forms : ∀ reference old, before.get? reference = some old →
    ∃ new, after.get? reference = some new ∧ change old new

namespace Store

variable {change : Form → Form → Prop}

/-- A store that stays has changed as it may, where every form may stay. -/
theorem Changes.refl (allowed : ∀ form, change form form) (store : Store) :
    store.Changes change store :=
  ⟨rfl, fun _ old found => ⟨old, found, allowed old⟩⟩

/-- A run may go on with an edit that keeps the form's type and, behind what was made of the form
so far, makes of it what a run may. -/
theorem Changes.modify {before reached : Store} {reference : FormReference} {edit : Form → Form}
    (run : before.Changes change reached)
    (types : ∀ form, reached.get? reference = some form →
      (edit form).record.type = form.record.type)
    (allowed : ∀ old new, reached.get? reference = some new → change old new →
      change old (edit new)) :
    before.Changes change (reached.modify reference edit) := by
  refine ⟨(skeleton_modify types).trans run.skeleton, fun other old found => ?_⟩
  obtain ⟨new, found', changed⟩ := run.forms other old found
  rw [get?_modify]
  split
  · next same =>
    have here : reached.get? reference = some new := (reached.get?_congr same).symm.trans found'
    exact ⟨edit new, by rw [found', Option.map_some], allowed old new here changed⟩
  · exact ⟨new, found', changed⟩

end Store

namespace ArmorPatch

/-- Whether one of some patches gives a rating or a weight: it is the number of the 32-bit format
nearest to one that an edit of the patch holds and that lies between zero and a hundred thousand. -/
def Gives (patches : List ArmorPatch) (set : Number.Double → ArmorOperation)
    (stat : Number.Single) : Prop :=
  ∃ patch ∈ patches, ∃ given : Number.Double, set given ∈ patch.operations ∧
    given.isFinite = true ∧ 0 ≤ given.value ∧ given.value ≤ 100000 ∧ stat = given.convert .single

/-- What patches may make of an armor's rating and weight: each stays or is given by a patch. -/
structure Restats (patches : List ArmorPatch) (old new : Armor) : Prop where
  /-- The rating stays or is given. -/
  rating : new.rating = old.rating ∨ Gives patches .setRating new.rating
  /-- The weight stays or is given. -/
  weight : new.weight = old.weight ∨ Gives patches .setWeight new.weight

/-- What armor patches may make of a form. -/
structure Change (patches : List ArmorPatch) (old new : Form) : Prop where
  /-- The editor ID stays. -/
  editorId : new.editorId = old.editorId
  /-- A keyword stays as it is. -/
  keyword : old.record = .keyword → new = old
  /-- An armor stays an armor, whose rating and weight stay or are given by a patch. -/
  armor : ∀ armor, old.record = .armor armor →
    ∃ armor', new.record = .armor armor' ∧ Restats patches armor armor'

variable {patches : List ArmorPatch}

/-- Armor patches may leave a form as it is. -/
theorem Change.refl (form : Form) : Change patches form form :=
  ⟨rfl, fun _ => rfl, fun armor record => ⟨armor, record, .inl rfl, .inl rfl⟩⟩

end ArmorPatch

namespace ArmorOperation

/-- What passes the check of a rating or a weight lies in the range and is given as it is. -/
theorem checkStat_eq_ok {what : String} {given : Number.Double} {stat : Number.Single}
    (checked : checkStat what given = .ok stat) :
    given.isFinite = true ∧ 0 ≤ given.value ∧ given.value ≤ 100000 ∧
      stat = given.convert .single := by
  unfold checkStat at checked
  split at checked
  · next within =>
    obtain ⟨finite, positive, most⟩ :=
      (Number.Binary.isWithin_iff Number.Layout.double_holds given).1 within
    exact ⟨finite, positive, by exact_mod_cast most, (Except.ok.inj checked).symm⟩
  · cases checked

/-- Attaching keywords keeps what the armor does. -/
theorem stats_attach (keywords : List FormReference) (armor : Armor) :
    (keywords.foldl Armor.attach armor).rating = armor.rating ∧
      (keywords.foldl Armor.attach armor).weight = armor.weight := by
  induction keywords generalizing armor with
  | nil => exact ⟨rfl, rfl⟩
  | cons keyword keywords ih =>
    have kept : (armor.attach keyword).rating = armor.rating ∧
        (armor.attach keyword).weight = armor.weight := by
      unfold Armor.attach
      split <;> exact ⟨rfl, rfl⟩
    exact ⟨(ih _).1.trans kept.1, (ih _).2.trans kept.2⟩

variable {patches : List ArmorPatch}

/-- An edit of some patch gives a rating or a weight that the patch holds, or keeps both. -/
theorem restats_edit {patch : ArmorPatch} (listed : patch ∈ patches) {operation : ArmorOperation}
    (member : operation ∈ patch.operations) {keywords : List FormReference} {armor edited : Armor}
    (edit : operation.edit keywords armor = .ok edited) :
    ArmorPatch.Restats patches armor edited := by
  cases operation with
  | setRating given =>
    obtain ⟨stat, checked, same⟩ := Failure.bind_eq_ok.1 edit
    cases same
    exact ⟨.inr ⟨patch, listed, given, member, checkStat_eq_ok checked⟩, .inl rfl⟩
  | setWeight given =>
    obtain ⟨stat, checked, same⟩ := Failure.bind_eq_ok.1 edit
    cases same
    exact ⟨.inl rfl, .inr ⟨patch, listed, given, member, checkStat_eq_ok checked⟩⟩
  | setValue value =>
    obtain ⟨given, _, same⟩ := Failure.bind_eq_ok.1 edit
    cases same
    exact ⟨.inl rfl, .inl rfl⟩
  | addKeywords references =>
    obtain rfl := Except.ok.inj edit
    exact ⟨.inl (stats_attach keywords armor).1, .inl (stats_attach keywords armor).2⟩
  | setSlots | addSlots | removeSlots | clearSlots | setFullName | removeKeywords
  | clearKeywords =>
    obtain rfl := Except.ok.inj edit
    exact ⟨.inl rfl, .inl rfl⟩

/-- An edit of some patch goes on with a run of the patches. -/
theorem changes_apply {patch : ArmorPatch} (listed : patch ∈ patches) {operation : ArmorOperation}
    (member : operation ∈ patch.operations) (target : FormReference) {before reached : Store}
    (run : before.Changes (ArmorPatch.Change patches) reached) :
    before.Changes (ArmorPatch.Change patches) (operation.apply target reached).store := by
  rcases operation.apply_cases target reached with
    ⟨failure, opened, refused⟩ | ⟨keywords, armor, edited, _, opened, edit, applied⟩
  · rw [refused]
    exact run
  · rw [applied]
    obtain ⟨form, found, record⟩ := armorAt_eq_ok.1 opened
    refine run.modify (fun form' found' => ?_) (fun old new found' changed => ?_)
    · obtain rfl : form = form' := Option.some.inj (found.symm.trans found')
      rw [record]
      rfl
    · obtain rfl : form = new := Option.some.inj (found.symm.trans found')
      refine ⟨changed.editorId, fun keyword => ?_, fun armor₀ record₀ => ?_⟩
      · -- What was a keyword before is still one, so it was not opened.
        rw [changed.keyword keyword, keyword] at record
        cases record
      · obtain ⟨armor₁, record₁, restats⟩ := changed.armor armor₀ record₀
        obtain rfl : armor = armor₁ := Record.armor.inj (record.symm.trans record₁)
        have here := restats_edit listed member edit
        refine ⟨edited, rfl, ?_, ?_⟩
        · exact here.rating.elim (fun kept => kept ▸ restats.rating) .inr
        · exact here.weight.elim (fun kept => kept ▸ restats.weight) .inr

end ArmorOperation

/-- A patch goes on with a run of patches that it is one of. -/
theorem ArmorPatch.changes_apply {patches : List ArmorPatch} {patch : ArmorPatch}
    (listed : patch ∈ patches) {before reached : Store}
    (run : before.Changes (Change patches) reached) :
    before.Changes (Change patches) (patch.apply reached).store := by
  unfold apply
  split
  · exact run
  · refine Applied.forEach_keeps (motive := before.Changes (Change patches))
      (fun target _ _ run => ?_) run
    exact Applied.forEach_keeps (motive := before.Changes (Change patches))
      (fun _ member _ run => ArmorOperation.changes_apply listed member target run) run

namespace KeywordPatch

/-- What keyword patches may make of a form. -/
structure Change (patches : List KeywordPatch) (old new : Form) : Prop where
  /-- The record stays. -/
  record : new.record = old.record
  /-- An armor stays as it is. -/
  armor : old.record.type = .armor → new = old
  /-- The editor ID stays or is the new one of a patch. -/
  editorId : new.editorId = old.editorId ∨ ∃ patch ∈ patches, new.editorId = some patch.editorId

variable {patches : List KeywordPatch}

/-- Keyword patches may leave a form as it is. -/
theorem Change.refl (form : Form) : Change patches form form :=
  ⟨rfl, fun _ => rfl, .inl rfl⟩

/-- A patch goes on with a run of patches that it is one of. -/
theorem changes_apply {patch : KeywordPatch} (listed : patch ∈ patches) {before reached : Store}
    (run : before.Changes (Change patches) reached) :
    before.Changes (Change patches) (patch.apply reached).store := by
  rcases patch.apply_cases reached with ⟨failure, refused⟩ | ⟨text, reference, resolved, applied⟩
  · rw [refused]
    exact run
  · rw [applied]
    obtain ⟨_, form, found, type⟩ := Store.resolveTyped_eq_ok resolved
    refine run.modify (fun _ _ => rfl) (fun old new found' changed => ?_)
    obtain rfl : form = new := Option.some.inj (found.symm.trans found')
    refine ⟨changed.record, fun armor => ?_, .inr ⟨patch, listed, rfl⟩⟩
    -- What was an armor before is still one, so it was not resolved.
    rw [changed.record, armor] at type
    cases type

end KeywordPatch

/-- Applying any tree of either record type changes a store as the expressions of the tree may. -/
theorem changes_of_trees :
    (∀ (store : Store) (statements : List (Statement ArmorPatch)),
      store.Changes (ArmorPatch.Change (Statement.payloadsAll statements))
        (applyAll ArmorPatch.apply statements store).store) ∧
    ∀ (store : Store) (statements : List (Statement KeywordPatch)),
      store.Changes (KeywordPatch.Change (Statement.payloadsAll statements))
        (applyAll KeywordPatch.apply statements store).store :=
  ⟨fun store statements =>
      applyAll_keeps statements (fun _ listed _ run => ArmorPatch.changes_apply listed run)
        (.refl .refl store),
    fun store statements =>
      applyAll_keeps statements (fun _ listed _ run => KeywordPatch.changes_apply listed run)
        (.refl .refl store)⟩

end FormPatch
