import FormPatch.Proofs.Application.Active

/-!
# Forms of inactive plugins

A form is dormant when its plugin is not active. A text that is a reference resolves to live forms
only, and so does an editor ID. A keyword filter selects by the keyword alone: it takes every armor
that carries it, dormant ones included. So keyword files leave dormant forms as they are, and armor
files do exactly as long as no dormant armor carries a keyword that a filter can name.
-/

namespace FormPatch

namespace Store

/-- The entries of a store whose plugins are not among the active ones. -/
def dormant (isActive : String → Bool) (store : Store) : List (FormReference × Form) :=
  store.forms.entries.filter fun entry => !isActive entry.1.plugin

/-- Whether every dormant form of one store is in another store exactly what it was. -/
def LeavesDormant (before after : Store) : Prop :=
  after.dormant before.isActive = before.dormant before.isActive

instance (before after : Store) : Decidable (before.LeavesDormant after) :=
  inferInstanceAs (Decidable (_ = _))

/-- Whether a dormant armor carries a keyword. -/
def DormantCarries (store : Store) (keyword : FormReference) : Prop :=
  ∃ entry ∈ store.dormant store.isActive, ∃ armor,
    entry.2.record = .armor armor ∧ armor.hasKeyword keyword = true

/-- Changing the form under a reference with an active plugin leaves dormant forms. -/
theorem leavesDormant_modify {store : Store} {reference : FormReference}
    (active : store.isActive reference.plugin = true) (change : Form → Form) :
    store.LeavesDormant (store.modify reference change) := by
  simp only [LeavesDormant, dormant, modify, OrderedMap.modify, List.filter_map]
  have untouched : ∀ entry ∈ store.forms.entries.filter fun entry =>
      !store.isActive entry.1.plugin,
      (if compare reference entry.1 == .eq then (entry.1, change entry.2) else entry) = entry := by
    intro entry member
    obtain ⟨_, asleep⟩ := List.mem_filter.1 member
    rw [if_neg]
    intro touched
    rw [isActive_congr (beq_iff_eq.1 touched)] at active
    simp [active] at asleep
  have alike : ((fun entry : FormReference × Form => !store.isActive entry.1.plugin) ∘
      fun entry => if compare reference entry.1 == .eq then (entry.1, change entry.2) else entry) =
      fun entry => !store.isActive entry.1.plugin := by
    funext entry
    simp only [Function.comp]
    split <;> rfl
  rw [alike, List.map_congr_left untouched, List.map_id']

end Store

/-- What a run that leaves dormant forms has reached: the skeleton and the dormant forms are those
of the store that it started from. -/
structure Store.Rested (before after : Store) : Prop where
  /-- The skeleton is the same. -/
  skeleton : after.skeleton = before.skeleton
  /-- The dormant forms are the same. -/
  dormant : before.LeavesDormant after

namespace Store.Rested

variable {before reached after : Store}

/-- A store rests where nothing is done to it. -/
theorem refl (store : Store) : store.Rested store := ⟨rfl, rfl⟩

/-- What rests through two runs rests through both in a row. -/
theorem trans (first : before.Rested reached) (second : reached.Rested after) :
    before.Rested after := by
  refine ⟨second.skeleton.trans first.skeleton, ?_⟩
  have kept := second.dormant
  simp only [LeavesDormant, isActive_of_skeleton first.skeleton] at kept
  exact kept.trans first.dormant

/-- The dormant armors of a store that was reached carry what they carried before. -/
theorem dormantCarries (rested : before.Rested reached) (keyword : FormReference) :
    reached.DormantCarries keyword ↔ before.DormantCarries keyword := by
  have same : reached.dormant reached.isActive = before.dormant before.isActive := by
    rw [isActive_of_skeleton rested.skeleton]
    exact rested.dormant
  simp only [DormantCarries, same]

end Store.Rested

/-- An edit of an armor with an active plugin leaves dormant forms. -/
theorem ArmorOperation.rested_apply {target : FormReference} {store : Store}
    (active : store.isActive target.plugin = true) (operation : ArmorOperation) :
    store.Rested (operation.apply target store).store := by
  refine ⟨operation.skeleton_apply target store, ?_⟩
  rcases operation.apply_cases target store with
    ⟨failure, opened, refused⟩ | ⟨keywords, armor, edited, _, _, _, applied⟩
  · rw [refused]
    rfl
  · rw [applied]
    exact Store.leavesDormant_modify active _

/-- A keyword patch leaves dormant forms. -/
theorem KeywordPatch.rested_apply (patch : KeywordPatch) (store : Store) :
    store.Rested (patch.apply store).store := by
  refine ⟨patch.skeleton_apply store, ?_⟩
  rcases patch.apply_cases store with ⟨failure, refused⟩ | ⟨text, reference, resolved, applied⟩
  · rw [refused]
    rfl
  · rw [applied]
    obtain ⟨live, _⟩ := Store.resolveTyped_eq_ok resolved
    exact Store.leavesDormant_modify (Store.isActive_of_isLive live) _

namespace ArmorPatch

/-- Whether a patch selects dormant armors: its filter names a keyword that one of them carries. -/
def SelectsDormant (patch : ArmorPatch) (store : Store) : Prop :=
  ∃ text keyword, patch.filter = .keyword text ∧
    store.resolveTyped text .keyword = .ok keyword ∧ store.DormantCarries keyword

/-- A patch that selects no dormant armor has targets with active plugins only. -/
theorem isActive_of_target {patch : ArmorPatch} {store : Store}
    (awake : ¬patch.SelectsDormant store) {targets : List FormReference}
    (found : patch.targets store = .ok targets) :
    ∀ target ∈ targets, store.isActive target.plugin = true := by
  intro target member
  unfold ArmorPatch.targets at found
  split at found
  · obtain ⟨only, resolved, same⟩ := Failure.bind_eq_ok.1 found
    cases same
    obtain rfl := List.mem_singleton.1 member
    obtain ⟨live, _⟩ := Store.resolveTyped_eq_ok resolved
    exact Store.isActive_of_isLive live
  · next text filter =>
    obtain ⟨keyword, resolved, same⟩ := Failure.bind_eq_ok.1 found
    cases same
    obtain ⟨form, armor, entry, record, carries⟩ := Store.mem_armorsWith.1 member
    cases asleep : store.isActive target.plugin with
    | true => rfl
    | false =>
      have dormant : (target, form) ∈ store.dormant store.isActive :=
        List.mem_filter.2 ⟨entry, by simp [asleep]⟩
      exact absurd ⟨text, keyword, filter, resolved, (target, form), dormant, armor, record,
        carries⟩ awake

/-- A patch that selects no dormant armor leaves dormant forms. -/
theorem rested_apply {patch : ArmorPatch} {store : Store} (awake : ¬patch.SelectsDormant store) :
    store.Rested (patch.apply store).store := by
  unfold apply
  split
  · exact .refl store
  · next targets found =>
    refine Applied.forEach_keeps (motive := store.Rested) (fun target member reached rested => ?_)
      (.refl store)
    refine Applied.forEach_keeps (motive := store.Rested) (fun operation _ reached rested => ?_)
      rested
    have active := isActive_of_target awake found target member
    rw [← Store.isActive_of_skeleton rested.skeleton] at active
    exact rested.trans (operation.rested_apply active)

/-- Which patches select dormant armors does not change while none of them is touched. -/
theorem selectsDormant_of_rested {before reached : Store} (rested : before.Rested reached)
    (patch : ArmorPatch) : patch.SelectsDormant reached ↔ patch.SelectsDormant before := by
  simp only [SelectsDormant, rested.dormantCarries,
    Store.resolveTyped_of_skeleton rested.skeleton]

end ArmorPatch

/-- Whether the armor under a reference has a name. -/
def Store.Named (store : Store) (reference : FormReference) (name : String) : Prop :=
  ∃ form armor, store.get? reference = some form ∧ form.record = .armor armor ∧
    armor.fullName = name

namespace ArmorOperation

/-- An armor that is given a name has it. -/
theorem named_apply {store : Store} {reference : FormReference} {form : Form} {armor : Armor}
    (found : store.get? reference = some form) (record : form.record = .armor armor)
    (name : String) : ((setFullName name).apply reference store).store.Named reference name := by
  have opened : armorAt store reference = .ok armor := armorAt_eq_ok.2 ⟨form, found, record⟩
  have applied : (setFullName name).apply reference store =
      ⟨store.modify reference fun form =>
        { form with record := .armor { armor with fullName := name } }, [], [reference]⟩ := by
    simp only [apply, references, List.mapM_nil, opened]
    rfl
  rw [applied]
  refine ⟨{ form with record := .armor { armor with fullName := name } },
    { armor with fullName := name }, ?_, rfl, rfl⟩
  rw [Store.get?_modify, if_pos Std.ReflCmp.compare_self, found]
  rfl

/-- Giving armors a name takes it from none. -/
theorem named_keeps {store : Store} {reference : FormReference} {name : String}
    (named : store.Named reference name) (target : FormReference) :
    ((setFullName name).apply target store).store.Named reference name := by
  rcases (setFullName name).apply_cases target store with
    ⟨failure, opened, refused⟩ | ⟨keywords, armor, edited, _, _, edit, applied⟩
  · rw [refused]
    exact named
  · rw [applied]
    obtain ⟨form, known, found, record, called⟩ := named
    obtain rfl : { armor with fullName := name } = edited := Except.ok.inj edit
    simp only [Store.Named, Store.get?_modify]
    split
    · rw [found]
      exact ⟨_, _, rfl, rfl, rfl⟩
    · exact ⟨form, known, found, record, called⟩

end ArmorOperation

namespace ArmorPatch

/-- The patch that gives all armors with a keyword a name. -/
def nameCarriers (text name : String) : ArmorPatch :=
  ⟨.keyword text, .fullName, [.setFullName name]⟩

/-- Every armor that carries the keyword gets the name. -/
theorem named_nameCarriers {store : Store} {text : String} {keyword reference : FormReference}
    (name : String) (resolved : store.resolveTyped text .keyword = .ok keyword)
    (carries : reference ∈ store.armorsWith keyword) :
    ((nameCarriers text name).apply store).store.Named reference name := by
  have found : (nameCarriers text name).targets store = .ok (store.armorsWith keyword) := by
    simp only [targets, nameCarriers, resolved]
    rfl
  have step (target : FormReference) :
      Applied.forEach (nameCarriers text name).operations (ArmorOperation.apply target) =
        (ArmorOperation.setFullName name).apply target :=
    funext fun store => Applied.forEach_singleton _ _ store
  simp only [apply, found, step]
  obtain ⟨front, behind, split⟩ := List.append_of_mem carries
  obtain ⟨form, armor, entry, record, _⟩ := Store.mem_armorsWith.1 carries
  rw [split, Applied.forEach_append, Applied.store_andThen, Applied.forEach_cons,
    Applied.store_andThen]
  refine Applied.forEach_keeps (motive := fun reached => reached.Named reference name)
    (fun target _ reached named => ArmorOperation.named_keeps named target) ?_
  -- In front of its turn, the armor may have another name but is still an armor.
  have skeleton : (Applied.forEach front (fun target store =>
      (ArmorOperation.setFullName name).apply target store) store).store.skeleton =
        store.skeleton :=
    Applied.forEach_keeps (motive := fun reached => reached.skeleton = store.skeleton)
      (fun target _ reached same => (ArmorOperation.skeleton_apply target _ reached).trans same) rfl
  have typed := Store.type_of_skeleton skeleton reference
  rw [show store.get? reference = some form from
    store.forms.get?_of_mem entry Std.ReflCmp.compare_self, Option.map_some, record] at typed
  obtain ⟨form', found', armored⟩ := Option.map_eq_some_iff.1 typed
  cases record' : form'.record with
  | keyword =>
    rw [record'] at armored
    cases armored
  | armor armor' => exact ArmorOperation.named_apply found' record' name

/-- A keyword that a dormant armor carries leads some patch to a dormant form. -/
theorem exists_touching {patch : ArmorPatch} {store : Store}
    (selects : patch.SelectsDormant store) :
    ∃ other : ArmorPatch, ¬store.LeavesDormant (other.apply store).store := by
  obtain ⟨text, keyword, _, resolved, ⟨reference, form⟩, dormant, armor, record, carries⟩ := selects
  obtain ⟨entry, _⟩ := List.mem_filter.1 dormant
  refine ⟨nameCarriers text (armor.fullName ++ "+"), fun same => ?_⟩
  have selected : reference ∈ store.armorsWith keyword :=
    Store.mem_armorsWith.2 ⟨form, armor, entry, record, carries⟩
  obtain ⟨form', armor', found, record', renamed⟩ :=
    named_nameCarriers (armor.fullName ++ "+") resolved selected
  -- Were the entry still the same, the armor would have both names.
  rw [← same] at dormant
  obtain ⟨kept, _⟩ := List.mem_filter.1 dormant
  have found' := (((nameCarriers text (armor.fullName ++ "+")).apply store).store.forms).get?_of_mem
    kept Std.ReflCmp.compare_self
  obtain rfl : form' = form := Option.some.inj (found.symm.trans found')
  obtain rfl : armor' = armor := Record.armor.inj (record'.symm.trans record)
  have longer := congrArg String.length renamed
  simp at longer

end ArmorPatch

/-- A run of patches none of which selects dormant armors leaves dormant forms. -/
theorem ArmorPatch.rested_forEach {store : Store} {patches : List ArmorPatch}
    (awake : ∀ patch ∈ patches, ¬patch.SelectsDormant store) :
    store.Rested (Applied.forEach patches ArmorPatch.apply store).store := by
  refine Applied.forEach_keeps (motive := store.Rested) (fun patch member reached rested => ?_)
    (.refl store)
  have awake' : ¬patch.SelectsDormant reached := by
    rw [patch.selectsDormant_of_rested rested]
    exact awake patch member
  exact rested.trans (ArmorPatch.rested_apply awake')

/-- Keyword trees leave dormant forms. An armor tree does when no active patch of it selects dormant
armors, and every armor tree does exactly when there is no patch that could select one. -/
theorem dormant_forms_of_trees (store : Store) :
    (∀ statements : List (Statement KeywordPatch),
      store.LeavesDormant (applyAll KeywordPatch.apply statements store).store) ∧
    (∀ statements : List (Statement ArmorPatch),
      (∀ patch ∈ (activeAll store.host statements).1, ¬patch.SelectsDormant store) →
        store.LeavesDormant (applyAll ArmorPatch.apply statements store).store) ∧
    ((∀ statements : List (Statement ArmorPatch),
      store.LeavesDormant (applyAll ArmorPatch.apply statements store).store) ↔
        ¬∃ patch : ArmorPatch, patch.SelectsDormant store) := by
  have armor (statements : List (Statement ArmorPatch))
      (awake : ∀ patch ∈ (activeAll store.host statements).1, ¬patch.SelectsDormant store) :
      store.LeavesDormant (applyAll ArmorPatch.apply statements store).store := by
    rw [(ArmorPatch.keepsSkeleton.appliesActive statements store).stores]
    exact (ArmorPatch.rested_forEach awake).dormant
  refine ⟨fun statements => ?_, armor, fun leaves => ?_, fun none => ?_⟩
  · rw [(KeywordPatch.keepsSkeleton.appliesActive statements store).stores]
    have rested : store.Rested (Applied.forEach (activeAll store.host statements).1
        KeywordPatch.apply store).store :=
      Applied.forEach_keeps (motive := store.Rested)
        (fun patch _ reached rested => rested.trans (patch.rested_apply reached)) (.refl store)
    exact rested.dormant
  · rintro ⟨patch, selects⟩
    obtain ⟨other, touches⟩ := ArmorPatch.exists_touching selects
    have tree : applyAll ArmorPatch.apply [.expression other] store = other.apply store :=
      Applied.andThen_nothing _
    exact touches (tree ▸ leaves [.expression other])
  · exact fun statements => armor statements fun patch _ selects => none ⟨patch, selects⟩

/-- A keyword of an active plugin and an armor of another one, which carries it. -/
def dormantHood : Store :=
  ⟨["Skyrim.esm"], .ofList
    [(⟨"Skyrim.esm", 1⟩, ⟨none, .keyword⟩),
      (⟨"Off.esp", 2⟩, ⟨none, .armor ⟨"Hood", 0, default, default, 3, [⟨"Skyrim.esm", 1⟩]⟩⟩)]⟩

/-- The armor is found by its keyword and gets another value, though its plugin is not active. -/
theorem keywordFilter_reaches_dormant :
    ¬dormantHood.LeavesDormant (applyAll ArmorPatch.apply
      [.expression ⟨.keyword "Skyrim.esm|1", .value, [.setValue 5]⟩] dormantHood).store := by
  decide +kernel

end FormPatch
