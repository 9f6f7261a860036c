import FormPatch.Edition
import FormPatch.Proofs.Application.Runs
import FormPatch.Proofs.Armor.Effects
import FormPatch.Proofs.Number.Range
import FormPatch.Proofs.Store.Resolution

/-!
# What an armor patch makes of its targets

An armor patch finds its targets once and then makes its edits on one target after the other. No
edit changes what a text resolves to, so an edit comes to the same on every target, wherever in the
run it stands. Main statement: each target's armor becomes what the edits make of it in order, of
which those that fail are left out and any other one leaves what it says of its field; all other
forms stay; and each edit that fails is reported once for each target, in the order of the run. A
patch without targets leaves the store also in the eyes of the program, which compares editions.
-/

namespace FormPatch

/-- The form with its armor changed; a keyword stays as it is. -/
def Form.onArmor (change : Armor → Armor) (form : Form) : Form :=
  match form.record with
  | .armor armor => { form with record := .armor (change armor) }
  | .keyword => form

namespace Form

/-- An armor's form gets the changed armor and keeps its editor ID. -/
theorem onArmor_of_armor {form : Form} {armor : Armor} (record : form.record = .armor armor)
    (change : Armor → Armor) :
    form.onArmor change = { form with record := .armor (change armor) } := by
  simp only [onArmor, record]

/-- Changing no armor changes no form. -/
theorem onArmor_id : onArmor id = id := by
  funext form
  obtain ⟨editorId, record⟩ := form
  cases record <;> rfl

/-- Two changes of a form's armor are one change. -/
theorem onArmor_comp (first second : Armor → Armor) :
    onArmor second ∘ onArmor first = onArmor (second ∘ first) := by
  funext form
  obtain ⟨editorId, record⟩ := form
  cases record <;> rfl

/-- Changing the armor of a form keeps the form's type. -/
theorem type_onArmor (change : Armor → Armor) (form : Form) :
    (form.onArmor change).record.type = form.record.type := by
  obtain ⟨editorId, record⟩ := form
  cases record <;> rfl

/-- A form of an armor's type has an armor. -/
theorem exists_armor {form : Form} (type : form.record.type = .armor) :
    ∃ armor, form.record = .armor armor := by
  cases record : form.record with
  | armor armor => exact ⟨armor, rfl⟩
  | keyword =>
    rw [record] at type
    cases type

end Form

namespace Store

/-- The store with the form under each of some references changed once. -/
def modifyAll (store : Store) (references : List FormReference) (change : Form → Form) : Store :=
  { store with
    forms :=
      ⟨store.forms.entries.map fun entry =>
          if references.any entry.1.same then (entry.1, change entry.2) else entry, by
        refine List.pairwise_map.2 (store.forms.ascending.imp fun {left right} less => ?_)
        split <;> split <;> exact less⟩ }

variable {store : Store} {reference : FormReference} {change : Form → Form}

/-- Changes that agree on the form under a reference are one change of the store. -/
theorem modify_congr {first second : Form → Form}
    (agree : ∀ form, store.get? reference = some form → first form = second form) :
    store.modify reference first = store.modify reference second :=
  congrArg (Store.mk store.plugins) (OrderedMap.modify_congr agree)

/-- Leaving a form as it is leaves the store as it is. -/
theorem modify_id : store.modify reference id = store :=
  congrArg (Store.mk store.plugins) (store.forms.modify_id reference)

/-- Two changes of one form are one change. -/
theorem modify_modify (first second : Form → Form) :
    (store.modify reference first).modify reference second =
      store.modify reference (second ∘ first) :=
  congrArg (Store.mk store.plugins) (store.forms.modify_modify reference first second)

/-- Changing no form leaves the store as it is. -/
theorem modifyAll_nil : store.modifyAll [] change = store := by
  obtain ⟨plugins, forms⟩ := store
  simp [modifyAll]

/-- A store with one form changed is the same as with the form changed in advance, when no later
reference names the form again. -/
theorem modifyAll_cons {first : FormReference} {others : List FormReference}
    (apart : ∀ other ∈ others, compare first other ≠ .eq) :
    (store.modify first change).modifyAll others change =
      store.modifyAll (first :: others) change := by
  refine congrArg (Store.mk store.plugins) (OrderedMap.ext ?_)
  simp only [modify, OrderedMap.modify, List.map_map]
  refine List.map_congr_left fun entry _ => ?_
  by_cases touched : compare first entry.1 = .eq
  · have untouched : others.any entry.1.same = false := by
      rw [List.any_eq_false]
      intro other member same
      exact apart other member
        (Std.TransCmp.eq_trans touched (FormReference.compare_eq_iff.2 same))
    have same : entry.1.same first = true :=
      FormReference.compare_eq_iff.1 (Std.OrientedCmp.eq_symm touched)
    simp only [Function.comp_apply, touched, BEq.rfl, ↓reduceIte, untouched, List.any_cons, same,
      Bool.true_or, Bool.false_eq_true]
  · have differs : entry.1.same first = false := by
      rw [Bool.eq_false_iff]
      exact fun same => touched (Std.OrientedCmp.eq_symm (FormReference.compare_eq_iff.2 same))
    simp [touched, differs]

/-- A form that is named by one of the references is found changed, and any other one as it was. -/
theorem get?_modifyAll (references : List FormReference) (other : FormReference) :
    (store.modifyAll references change).get? other =
      if references.any other.same then (store.get? other).map change else store.get? other := by
  have kept : ((fun entry : FormReference × Form => compare other entry.1 == .eq) ∘ fun entry =>
      if references.any entry.1.same then (entry.1, change entry.2) else entry) =
      fun entry => compare other entry.1 == .eq := by
    funext entry
    simp only [Function.comp_apply]
    split <;> rfl
  simp only [get?, OrderedMap.get?, modifyAll, List.find?_map, kept, Option.map_map]
  cases found : store.forms.entries.find? fun entry => compare other entry.1 == .eq with
  | none => simp
  | some entry =>
    have touched := List.find?_some found
    have same := FormReference.compare_eq_iff.1 (beq_iff_eq.1 touched)
    have keys : other.key = entry.1.key := beq_iff_eq.1 same
    have alike : entry.1.same = other.same := by
      funext reference
      rw [FormReference.same, FormReference.same, keys]
    simp only [Option.map_some, Function.comp_apply, alike]
    split <;> rfl

/-- In which order the references stand does not matter. -/
theorem modifyAll_perm {left right : List FormReference} (perm : left.Perm right) :
    store.modifyAll left change = store.modifyAll right change := by
  refine congrArg (Store.mk store.plugins) (OrderedMap.ext ?_)
  refine List.map_congr_left fun entry _ => ?_
  rw [perm.any_eq]

end Store

namespace ArmorPatch

/-- The warning that an armor patch gives about a failure. -/
def warning (failure : Failure) : Diagnostic :=
  .ofFailure .warning failure (some { recordType := some RecordType.armor.name })

end ArmorPatch

namespace ArmorOperation

/-- What an edit comes to for an armor when a store resolves the texts in it. -/
def attempt (store : Store) (operation : ArmorOperation) (armor : Armor) :
    Except Failure Armor := do
  let keywords ← operation.references.mapM fun text => store.resolveTyped text .keyword
  operation.edit keywords armor

/-- An armor after an edit, which leaves it as it is where it fails. -/
def revise (store : Store) (operation : ArmorOperation) (armor : Armor) : Armor :=
  match operation.attempt store armor with
  | .ok edited => edited
  | .error _ => armor

/-- Why an edit fails, if it does: for the first text that resolves to no keyword, or for a number
out of its range. -/
def obstacle? (store : Store) : ArmorOperation → Option Failure
  | addKeywords texts | removeKeywords texts =>
    texts.findSome? fun text => Failure.of? (store.resolveTyped text .keyword)
  | setRating rating => Failure.of? (checkStat "armor rating" rating)
  | setWeight weight => Failure.of? (checkStat "weight" weight)
  | setValue value => Failure.of? (checkValue value)
  | _ => none

/-- Whether an edit fails: a text in it names no keyword, or its number is out of range. -/
def Fails (store : Store) : ArmorOperation → Prop
  | addKeywords texts | removeKeywords texts =>
    ∃ text ∈ texts, ¬∃ keyword, store.Names text .keyword keyword
  | setRating given | setWeight given =>
    ¬(given.isFinite = true ∧ 0 ≤ given.value ∧ given.value ≤ 100000)
  | setValue value => ¬(0 ≤ value ∧ value < 2 ^ 32)
  | _ => False

variable {store : Store}

/-- Whether an edit fails, and why, does not depend on the armor. -/
theorem of?_attempt (operation : ArmorOperation) (armor : Armor) :
    Failure.of? (operation.attempt store armor) = operation.obstacle? store := by
  have edited {α : Type} {attempt : Except Failure α} {edit : α → Armor} :
      Failure.of? (attempt >>= fun found => Except.ok (edit found)) = Failure.of? attempt := by
    cases attempt <;> rfl
  cases operation with
  | addKeywords texts | removeKeywords texts => exact edited.trans (Failure.of?_mapM _ texts)
  | setRating | setWeight | setValue => exact edited
  | setSlots | addSlots | removeSlots | clearSlots | setFullName | clearKeywords => rfl

/-- A rating or a weight passes its check when it lies in the range. -/
theorem checkStat_passes_iff {what : String} {given : Number.Double} :
    (∃ stat, checkStat what given = .ok stat) ↔
      given.isFinite = true ∧ 0 ≤ given.value ∧ given.value ≤ 100000 := by
  have within := Number.Binary.isWithin_iff Number.Layout.double_holds given
  simp only [Nat.cast_ofNat] at within
  rw [← within, checkStat, mostStat]
  split
  · next inside => simp [inside]
  · next outside => simp [outside]

/-- A value passes its check when it fits 32 bits. -/
theorem checkValue_passes_iff {value : Int} :
    (∃ given, checkValue value = .ok given) ↔ 0 ≤ value ∧ value < 2 ^ 32 := by
  rw [checkValue]
  split
  · next inside => simpa using inside
  · next outside => simpa using outside

/-- An edit fails exactly for the reasons that there are. -/
theorem isSome_obstacle?_iff (operation : ArmorOperation) :
    (operation.obstacle? store).isSome = true ↔ operation.Fails store := by
  have failing {α : Type} (attempt : Except Failure α) :
      (Failure.of? attempt).isSome = true ↔ ¬∃ value, attempt = .ok value := by
    rw [← Failure.of?_eq_none, ← Option.not_isSome_iff_eq_none, not_not]
  cases operation with
  | addKeywords texts | removeKeywords texts =>
    simp only [obstacle?, Fails, List.findSome?_isSome_iff, failing, Store.resolveTyped_eq_ok_iff]
  | setRating given | setWeight given => exact (failing _).trans checkStat_passes_iff.not
  | setValue value => exact (failing _).trans checkValue_passes_iff.not
  | setSlots | addSlots | removeSlots | clearSlots | setFullName | clearKeywords =>
    simp [obstacle?, Fails]

/-- An edit that fails leaves the armor. -/
theorem revise_of_error {operation : ArmorOperation} {armor : Armor} {failure : Failure}
    (failed : operation.attempt store armor = .error failure) :
    operation.revise store armor = armor := by
  simp only [revise, failed]

/-- An edit that fails leaves every armor. -/
theorem revise_of_fails {operation : ArmorOperation} (fails : operation.Fails store)
    (armor : Armor) : operation.revise store armor = armor := by
  obtain ⟨failure, blocked⟩ := Option.isSome_iff_exists.1 (operation.isSome_obstacle?_iff.2 fails)
  rw [← operation.of?_attempt armor] at blocked
  exact revise_of_error (Failure.of?_eq_some.1 blocked)

/-- An edit that does not fail is made with the keywords that its texts name, which are the same for
each armor. -/
theorem exists_edit {operation : ArmorOperation} (succeeds : ¬operation.Fails store) :
    ∃ keywords,
      List.Forall₂ (fun text keyword => store.Names text .keyword keyword)
        operation.references keywords ∧
      ∀ armor, operation.edit keywords armor = .ok (operation.revise store armor) := by
  have free : operation.obstacle? store = none := by
    rwa [← operation.isSome_obstacle?_iff, Option.not_isSome_iff_eq_none] at succeeds
  obtain ⟨keywords, resolved⟩ : ∃ keywords,
      operation.references.mapM (fun text => store.resolveTyped text .keyword) =
        Except.ok keywords := by
    cases operation with
    | addKeywords texts | removeKeywords texts =>
      exact Failure.of?_eq_none.1 ((Failure.of?_mapM _ texts).trans free)
    | _ => exact ⟨[], rfl⟩
  have named := Failure.mapM_eq_ok.1 resolved
  simp only [Store.resolveTyped_eq_ok_iff] at named
  refine ⟨keywords, named, fun armor => ?_⟩
  obtain ⟨edited, attempted⟩ := Failure.of?_eq_none.1 ((operation.of?_attempt armor).trans free)
  have edit : operation.attempt store armor = operation.edit keywords armor := by
    rw [attempt, resolved]
    rfl
  simp only [revise, attempted, ← edit]

/-- What an edit does to a store in which the texts resolve as in another one: it puts the armor
that it comes to, or it reports why it fails. -/
theorem apply_of_attempt {reached : Store} (skeleton : reached.skeleton = store.skeleton)
    {target : FormReference} {armor : Armor} (opened : armorAt reached target = .ok armor)
    (operation : ArmorOperation) :
    (operation.apply target reached).store =
        (match operation.attempt store armor with
        | .ok edited => reached.modify target fun form => { form with record := .armor edited }
        | .error _ => reached) ∧
      (operation.apply target reached).reports =
        ((Failure.of? (operation.attempt store armor)).map ArmorPatch.warning).toList := by
  have bound {α : Type} (value : α) (next : α → Except Failure Armor) :
      (Except.ok value >>= next) = next value := rfl
  unfold apply attempt
  simp only [Store.resolveTyped_of_skeleton skeleton, opened]
  cases operation.references.mapM fun text => store.resolveTyped text .keyword with
  | error failure => exact ⟨rfl, rfl⟩
  | ok keywords =>
    simp only [bound]
    cases operation.edit keywords armor with
    | error failure => exact ⟨rfl, rfl⟩
    | ok edited => exact ⟨rfl, rfl⟩

/-- What an edit does to a store in which the texts resolve as in another one: the armor that it is
made for is revised, and a failure is reported. -/
theorem apply_of_armor {reached : Store} (skeleton : reached.skeleton = store.skeleton)
    {target : FormReference} {form : Form} {armor : Armor}
    (found : reached.get? target = some form) (record : form.record = .armor armor)
    (operation : ArmorOperation) :
    (operation.apply target reached).store =
        reached.modify target (Form.onArmor (operation.revise store)) ∧
      (operation.apply target reached).reports =
        ((operation.obstacle? store).map ArmorPatch.warning).toList := by
  obtain ⟨stored, reported⟩ :=
    apply_of_attempt skeleton (armorAt_eq_ok.2 ⟨form, found, record⟩) operation
  rw [operation.of?_attempt] at reported
  refine ⟨stored.trans ?_, reported⟩
  have revised (other : Form) (found' : reached.get? target = some other) :
      { other with record := .armor (operation.revise store armor) } =
        other.onArmor (operation.revise store) := by
    obtain rfl : form = other := Option.some.inj (found.symm.trans found')
    exact (Form.onArmor_of_armor record _).symm
  cases attempted : operation.attempt store armor with
  | ok edited =>
    have same : operation.revise store armor = edited := by simp only [revise, attempted]
    exact Store.modify_congr (same ▸ revised)
  | error failure =>
    refine Store.modify_id.symm.trans (Store.modify_congr fun other found' => ?_)
    obtain rfl : form = other := Option.some.inj (found.symm.trans found')
    rw [← revised form found, revise_of_error attempted, ← record]
    rfl

/-- An armor after edits in order. -/
def reviseAll (store : Store) (operations : List ArmorOperation) (armor : Armor) : Armor :=
  operations.foldl (fun armor operation => operation.revise store armor) armor

/-- The warnings about those of some edits that fail, in order. -/
def warnings (store : Store) (operations : List ArmorOperation) : List Diagnostic :=
  operations.filterMap fun operation => (operation.obstacle? store).map ArmorPatch.warning

/-- What edits in a row do to the store: the armor that they are made for is revised by each, and
those that fail are reported. -/
theorem forEach_apply {reached : Store} (skeleton : reached.skeleton = store.skeleton)
    {target : FormReference} {form : Form} {armor : Armor}
    (found : reached.get? target = some form) (record : form.record = .armor armor)
    (operations : List ArmorOperation) :
    (Applied.forEach operations (ArmorOperation.apply target) reached).store =
        reached.modify target (Form.onArmor (reviseAll store operations)) ∧
      (Applied.forEach operations (ArmorOperation.apply target) reached).reports =
        warnings store operations := by
  induction operations generalizing reached form armor with
  | nil =>
    refine ⟨?_, rfl⟩
    exact (Form.onArmor_id ▸ Store.modify_id : reached.modify target (Form.onArmor id) = _).symm
  | cons operation operations ih =>
    obtain ⟨stored, reported⟩ := operation.apply_of_armor skeleton found record
    have skeleton' := (operation.skeleton_apply target reached).trans skeleton
    rw [stored] at skeleton'
    have found' : (reached.modify target (Form.onArmor (operation.revise store))).get? target =
        some { form with record := .armor (operation.revise store armor) } := by
      rw [Store.get?_modify, if_pos Std.ReflCmp.compare_self, found, Option.map_some,
        Form.onArmor_of_armor record]
    obtain ⟨stored', reported'⟩ := ih skeleton' found' rfl
    rw [Applied.forEach_cons, Applied.andThen, stored, reported]
    refine ⟨?_, ?_⟩
    · rw [stored', Store.modify_modify, Form.onArmor_comp]
      rfl
    · rw [reported', warnings, warnings]
      cases blocked : operation.obstacle? store <;> simp [blocked]

/-- What edits do to the store when they are made on one armor after the other: each armor is
revised once, and each edit that fails is reported for each of them. -/
theorem forEach_forEach_apply {reached : Store} (skeleton : reached.skeleton = store.skeleton)
    (operations : List ArmorOperation) {targets : List FormReference}
    (armors : ∀ target ∈ targets, ∃ form,
      store.get? target = some form ∧ form.record.type = .armor)
    (apart : targets.Pairwise fun left right => compare left right ≠ .eq) :
    (Applied.forEach targets (fun target => Applied.forEach operations
        (ArmorOperation.apply target)) reached).store =
        reached.modifyAll targets (Form.onArmor (reviseAll store operations)) ∧
      (Applied.forEach targets (fun target => Applied.forEach operations
        (ArmorOperation.apply target)) reached).reports =
        targets.flatMap fun _ => warnings store operations := by
  induction targets generalizing reached with
  | nil => exact ⟨Store.modifyAll_nil.symm, rfl⟩
  | cons target targets ih =>
    obtain ⟨others, apart'⟩ := List.pairwise_cons.1 apart
    obtain ⟨form, found, type⟩ := armors target List.mem_cons_self
    -- The target was an armor in the beginning, so it still is one.
    have typed := Store.type_of_skeleton skeleton target
    rw [found, Option.map_some, type] at typed
    obtain ⟨form', found', type'⟩ := Option.map_eq_some_iff.1 typed
    obtain ⟨armor, record⟩ := Form.exists_armor type'
    obtain ⟨stored, reported⟩ := forEach_apply skeleton found' record operations
    have skeleton' : (reached.modify target
        (Form.onArmor (reviseAll store operations))).skeleton = store.skeleton := by
      rw [← skeleton]
      refine Store.skeleton_modify fun other _ => ?_
      rw [Form.type_onArmor]
    obtain ⟨stored', reported'⟩ :=
      ih skeleton' (fun other member => armors other (List.mem_cons_of_mem _ member)) apart'
    rw [Applied.forEach_cons, Applied.andThen, stored, reported]
    exact ⟨stored'.trans (Store.modifyAll_cons others), by rw [reported', List.flatMap_cons]⟩

end ArmorOperation

namespace ArmorFilter

/-- Whether a filter names a form of the type that it needs. -/
def Resolves (filter : ArmorFilter) (store : Store) : Prop :=
  match filter with
  | form text => ∃ reference, store.Names text .armor reference
  | keyword text => ∃ reference, store.Names text .keyword reference

/-- Whether a filter selects an entry of a store: the armor that it names, or an armor that carries
the keyword that it names. -/
def Selects (filter : ArmorFilter) (store : Store) (entry : FormReference × Form) : Prop :=
  match filter with
  | form text => ∃ reference, store.Names text .armor reference ∧ entry.1.same reference = true
  | keyword text => ∃ reference armor, store.Names text .keyword reference ∧
      entry.2.record = .armor armor ∧ armor.hasKeyword reference = true

end ArmorFilter

namespace ArmorPatch

variable {patch : ArmorPatch} {store : Store} {targets : List FormReference}

/-- The targets are the one armor that the filter names, or those with the keyword that it names. -/
theorem targets_eq_ok_iff : patch.targets store = .ok targets ↔
    (∃ text reference, patch.filter = .form text ∧ store.Names text .armor reference ∧
      targets = [reference]) ∨
    ∃ text reference, patch.filter = .keyword text ∧ store.Names text .keyword reference ∧
      targets = store.armorsWith reference := by
  have succeeds {text : String} {type : RecordType} {found : FormReference → List FormReference} :
      (store.resolveTyped text type >>= fun reference => .ok (found reference)) = .ok targets ↔
        ∃ reference, store.Names text type reference ∧ targets = found reference := by
    simp only [Failure.bind_eq_ok, Store.resolveTyped_eq_ok_iff, Except.ok.injEq,
      @eq_comm _ targets]
  unfold ArmorPatch.targets
  cases patch.filter with
  | form text => exact succeeds.trans (by simp)
  | keyword text => exact succeeds.trans (by simp)

/-- Targets are found exactly when the filter names a form of its type. -/
theorem exists_targets_iff :
    (∃ targets, patch.targets store = .ok targets) ↔ patch.filter.Resolves store := by
  simp only [targets_eq_ok_iff, ArmorFilter.Resolves]
  cases patch.filter with
  | form text => simp
  | keyword text => simp

/-- A patch whose filter names no form of its type is refused. -/
theorem exists_refused (unresolved : ¬patch.filter.Resolves store) :
    ∃ failure, patch.apply store = .refused store .armor failure [] := by
  cases found : patch.targets store with
  | error failure => exact ⟨failure, by rw [apply, found]⟩
  | ok targets => exact absurd (exists_targets_iff.1 ⟨targets, found⟩) unresolved

/-- A patch that is refused opens no form, so the edition that it is applied to is left as it is. -/
theorem edition_apply_of_refused {edition : Edition} {failure : Failure}
    (refused : patch.apply edition.store = .refused edition.store .armor failure []) :
    (edition.apply (.armor [.expression patch])).1 = edition := by
  have alone : (PatchFile.armor [.expression patch]).apply edition.store =
      patch.apply edition.store := Applied.andThen_nothing _
  rw [Edition.apply, alone, refused]
  rfl

/-- Targets stand in the order of their keys, each one once. -/
theorem ascending_targets (found : patch.targets store = .ok targets) :
    targets.Pairwise fun left right => compare left right = .lt := by
  rcases targets_eq_ok_iff.1 found with ⟨_, reference, _, _, rfl⟩ | ⟨_, reference, _, _, rfl⟩
  · exact List.pairwise_singleton _ reference
  · exact List.pairwise_map.2 ((store.forms.ascending.filter _).filter _)

/-- Targets are armors. -/
theorem armor_of_target (found : patch.targets store = .ok targets) :
    ∀ target ∈ targets, ∃ form, store.get? target = some form ∧ form.record.type = .armor := by
  rcases targets_eq_ok_iff.1 found with ⟨_, reference, _, named, rfl⟩ | ⟨_, reference, _, _, rfl⟩
  · exact List.forall_mem_singleton.2 named.found
  · intro target member
    obtain ⟨form, armor, entry, record, _⟩ := Store.mem_armorsWith.1 member
    exact ⟨form, store.forms.get?_of_mem entry Std.ReflCmp.compare_self, record ▸ rfl⟩

/-- The targets are the references that the filter selects. -/
theorem any_targets_iff (found : patch.targets store = .ok targets) :
    ∀ entry ∈ store.forms.entries,
      targets.any entry.1.same = true ↔ patch.filter.Selects store entry := by
  intro entry member
  rcases targets_eq_ok_iff.1 found with
    ⟨text, reference, filter, named, rfl⟩ | ⟨text, reference, filter, named, rfl⟩
  · simp only [filter, ArmorFilter.Selects, List.any_cons, List.any_nil, Bool.or_false]
    exact ⟨fun same => ⟨reference, named, same⟩,
      fun ⟨other, named', same⟩ => named'.unique named ▸ same⟩
  · simp only [filter, ArmorFilter.Selects, List.any_eq_true, Store.mem_armorsWith]
    constructor
    · rintro ⟨target, ⟨form, armor, listed, record, carries⟩, same⟩
      have found := store.forms.get?_of_mem listed (FormReference.compare_eq_iff.2 same)
      have found' := store.forms.get?_of_mem member Std.ReflCmp.compare_self
      obtain rfl : form = entry.2 := Option.some.inj (found.symm.trans found')
      exact ⟨reference, armor, named, record, carries⟩
    · rintro ⟨other, armor, named', record, carries⟩
      refine ⟨entry.1, ⟨entry.2, armor, member, record, named'.unique named ▸ carries⟩, ?_⟩
      exact FormReference.compare_eq_iff.1 Std.ReflCmp.compare_self

/-- What a patch does whose targets were found. -/
structure Performs (patch : ArmorPatch) (store : Store) (targets : List FormReference) : Prop where
  /-- The targets stand in the order of their keys, each one once. -/
  ascending : targets.Pairwise fun left right => compare left right = .lt
  /-- They are what the filter selects before the first edit. -/
  selected : ∀ entry ∈ store.forms.entries,
    targets.any entry.1.same = true ↔ patch.filter.Selects store entry
  /-- Each target becomes what the edits, those left out that fail, make of it in order; every other
  form stays. -/
  stored : (patch.apply store).store =
    store.modifyAll targets (Form.onArmor (ArmorOperation.reviseAll store patch.operations))
  /-- Target by target, each edit that fails is reported once. -/
  reported : (patch.apply store).reports =
    targets.flatMap fun _ => ArmorOperation.warnings store patch.operations
  /-- A target becomes what the edits make of it when it is the only one. -/
  alone : ∀ target ∈ targets, (patch.apply store).store.get? target =
    (Applied.forEach patch.operations (ArmorOperation.apply target) store).store.get? target
  /-- In any other order of the targets the edits lead to the same store. -/
  reordered : ∀ others : List FormReference, others.Perm targets →
    (Applied.forEach others (fun target => Applied.forEach patch.operations
      (ArmorOperation.apply target)) store).store = (patch.apply store).store

/-- A patch performs its edits on the targets that were found. -/
theorem performs (found : patch.targets store = .ok targets) : patch.Performs store targets := by
  have armors := armor_of_target found
  have ascending := ascending_targets found
  have apart : targets.Pairwise fun left right => compare left right ≠ .eq :=
    ascending.imp fun less same => nomatch less.symm.trans same
  have run : patch.apply store = Applied.forEach targets (fun target =>
      Applied.forEach patch.operations (ArmorOperation.apply target)) store := by
    rw [apply, found]
  obtain ⟨stored, reported⟩ :=
    ArmorOperation.forEach_forEach_apply rfl patch.operations armors apart
  rw [← run] at stored reported
  refine ⟨ascending, any_targets_iff found, stored, reported, fun target member => ?_,
    fun others perm => ?_⟩
  · obtain ⟨form, entry, type⟩ := armors target member
    obtain ⟨armor, record⟩ := Form.exists_armor type
    have listed : targets.any target.same = true :=
      List.any_eq_true.2 ⟨target, member, FormReference.compare_eq_iff.1 Std.ReflCmp.compare_self⟩
    rw [stored, (ArmorOperation.forEach_apply rfl entry record patch.operations).1,
      Store.get?_modifyAll, if_pos listed, Store.get?_modify, if_pos Std.ReflCmp.compare_self]
  · have armors' : ∀ target ∈ others, ∃ form,
        store.get? target = some form ∧ form.record.type = .armor :=
      fun target member => armors target (perm.mem_iff.1 member)
    have apart' := (perm.pairwise_iff fun differs same => differs (Std.OrientedCmp.eq_symm same)).2
      apart
    rw [stored, (ArmorOperation.forEach_forEach_apply rfl patch.operations armors' apart').1]
    exact Store.modifyAll_perm perm

/-- What a patch does to a store, whatever the store holds. -/
structure Obeys (patch : ArmorPatch) (store : Store) : Prop where
  /-- A filter that names no form of its type leaves the store, and one warning says so. -/
  refused : ¬patch.filter.Resolves store → (patch.apply store).store = store ∧
    ∃ failure, (patch.apply store).reports = [warning failure]
  /-- The program finds every edition of the store unchanged then, whatever numbers it holds. -/
  unchanged : ¬patch.filter.Resolves store → ∀ edition : Edition, edition.store = store →
    (edition.apply (.armor [.expression patch])).1.same edition = true
  /-- Otherwise there are targets, and the edits are performed on them. -/
  performed : patch.filter.Resolves store →
    ∃ targets, patch.targets store = .ok targets ∧ patch.Performs store targets
  /-- An edit is reported exactly when a text in it names no keyword or its number is out of
  range. -/
  reported : ∀ operation : ArmorOperation,
    (operation.obstacle? store).isSome = true ↔ operation.Fails store
  /-- An edit that fails leaves every armor. -/
  failed : ∀ operation : ArmorOperation, operation.Fails store →
    ∀ armor, operation.revise store armor = armor
  /-- Any other edit is made with the keywords that its texts name, and of each armor it makes the
  one that it leaves: its own field holds what it says, and every other field stays. -/
  made : ∀ operation : ArmorOperation, ¬operation.Fails store → ∃ keywords,
    List.Forall₂ (fun text keyword => store.Names text .keyword keyword)
      operation.references keywords ∧
    ∀ armor, operation.edit keywords armor = .ok (operation.revise store armor) ∧
      ∀ edited, operation.Leaves keywords armor edited ↔ edited = operation.revise store armor
  /-- A warning is one, and its message begins with the record type. -/
  tagged : ∀ failure, (warning failure).severity = .warning ∧
    ∃ wording, (warning failure).message = "[Armor] " ++ wording

end ArmorPatch

/-- Every armor patch does to every store what its filter and its edits say. -/
theorem edits_of_armor_patches (patch : ArmorPatch) (store : Store) : patch.Obeys store where
  refused unresolved := by
    obtain ⟨failure, refused⟩ := ArmorPatch.exists_refused unresolved
    rw [refused]
    exact ⟨rfl, failure, rfl⟩
  unchanged unresolved edition opened := by
    obtain ⟨failure, refused⟩ := ArmorPatch.exists_refused (opened ▸ unresolved)
    rw [ArmorPatch.edition_apply_of_refused refused]
    exact edition.same_self
  performed resolved := by
    obtain ⟨targets, found⟩ := ArmorPatch.exists_targets_iff.2 resolved
    exact ⟨targets, found, ArmorPatch.performs found⟩
  reported operation := operation.isSome_obstacle?_iff
  failed _ fails armor := ArmorOperation.revise_of_fails fails armor
  made _ succeeds := by
    obtain ⟨keywords, named, edit⟩ := ArmorOperation.exists_edit succeeds
    exact ⟨keywords, named, fun armor =>
      ⟨edit armor, fun _ => ArmorOperation.leaves_iff_of_edit (edit armor)⟩⟩
  tagged _ := ⟨rfl, _, rfl⟩

end FormPatch
