import FormPatch.PatchFile
import FormPatch.Proofs.Application.Changes
import FormPatch.Proofs.Application.Edits
import FormPatch.Proofs.Store.References

/-!
# The keywords of armors

An armor carries a keyword under the spellings in its list that are the keyword's key. Attaching
keywords adds one spelling for each key that is missing, detaching takes all spellings of a key out.
Main statement: files of both record types keep every list linked, that is, without two equal
references and with keywords of the store only; and a keyword that an edit attaches under several
spellings is carried once.
-/

namespace FormPatch

namespace Armor

/-- The spellings under which an armor carries a keyword, in the order of its list. -/
def carried (armor : Armor) (keyword : FormReference) : List FormReference :=
  armor.keywords.filter keyword.same

/-- An armor carries a keyword when there is a spelling of it. -/
theorem hasKeyword_iff {armor : Armor} {keyword : FormReference} :
    armor.hasKeyword keyword = true ↔ armor.carried keyword ≠ [] := by
  simp [hasKeyword, carried, List.filter_eq_nil_iff]

/-- Spellings of one keyword are carried alike. -/
theorem carried_congr {left right : FormReference} (same : left.same right = true)
    (armor : Armor) : armor.carried left = armor.carried right := by
  rw [carried, carried, FormReference.same_congr same]

/-- Attaching a keyword adds its spelling when there is none of the keyword. -/
theorem carried_attach (armor : Armor) (keyword other : FormReference) :
    (armor.attach keyword).carried other =
      if other.same keyword = true ∧ armor.carried other = [] then [keyword]
      else armor.carried other := by
  unfold attach
  split
  · next carries =>
    rw [if_neg]
    rintro ⟨same, none⟩
    rw [carried_congr same] at none
    exact hasKeyword_iff.1 carries none
  · next missing =>
    have appended : ({ armor with keywords := armor.keywords ++ [keyword] } : Armor).carried other =
        armor.carried other ++ [keyword].filter other.same :=
      List.filter_append ..
    rw [appended]
    by_cases same : other.same keyword = true
    · have none : armor.carried other = [] := by
        rw [carried_congr same]
        exact not_not.1 (hasKeyword_iff.not.1 missing)
      simp [same, none]
    · simp [same]

/-- Attaching keywords adds the first spelling of each one of which there is none. -/
theorem carried_foldl_attach (keywords : List FormReference) (armor : Armor)
    (other : FormReference) :
    (keywords.foldl attach armor).carried other =
      if armor.carried other = [] then (keywords.find? other.same).toList
      else armor.carried other := by
  induction keywords generalizing armor with
  | nil => simp
  | cons keyword keywords ih =>
    rw [List.foldl_cons, ih, carried_attach, List.find?_cons]
    by_cases none : armor.carried other = []
    · cases same : other.same keyword <;> simp [none]
    · simp [none]

/-- Detaching keywords takes out every spelling of theirs and no other one. -/
theorem carried_detach (armor : Armor) (keywords : List FormReference) (other : FormReference) :
    (armor.detach keywords).carried other =
      if keywords.any other.same then [] else armor.carried other := by
  have detached : (armor.detach keywords).carried other =
      (armor.carried other).filter fun carried => !keywords.any carried.same :=
    List.filter_comm ..
  have alike : ∀ carried ∈ armor.carried other, carried.same = other.same := fun carried member =>
    (FormReference.same_congr (List.mem_filter.1 member).2).symm
  rw [detached]
  split
  · next listed =>
    refine List.filter_eq_nil_iff.2 fun carried member => ?_
    rw [alike carried member, listed]
    decide
  · next unlisted =>
    refine List.filter_eq_self.2 fun carried member => ?_
    rw [alike carried member, Bool.eq_false_iff.2 unlisted]
    rfl

/-- Whether the keywords of an armor are well kept in a store: no two of them are equal, and each
one is the reference of a keyword. -/
structure IsLinked (store : Store) (armor : Armor) : Prop where
  /-- No two keywords are equal. -/
  distinct : armor.keywords.Pairwise fun left right => left.same right = false
  /-- Each one is the reference of a keyword. -/
  known : ∀ keyword ∈ armor.keywords,
    (store.get? keyword).map (fun form => form.record.type) = some .keyword

namespace IsLinked

variable {store : Store} {armor edited : Armor}

/-- Only the list counts. -/
theorem congr (linked : armor.IsLinked store) (same : edited.keywords = armor.keywords) :
    edited.IsLinked store :=
  ⟨same ▸ linked.distinct, same ▸ linked.known⟩

/-- Only the skeleton of the store counts. -/
theorem of_skeleton {other : Store} (linked : armor.IsLinked store)
    (same : other.skeleton = store.skeleton) : armor.IsLinked other :=
  ⟨linked.distinct, fun keyword member =>
    (Store.type_of_skeleton same keyword).trans (linked.known keyword member)⟩

/-- A list of which some keywords are left out stays linked. -/
theorem sublist (linked : armor.IsLinked store) (sublist : edited.keywords.Sublist armor.keywords) :
    edited.IsLinked store :=
  ⟨linked.distinct.sublist sublist, fun keyword member =>
    linked.known keyword (sublist.subset member)⟩

/-- Attaching a keyword of the store keeps a list linked. -/
theorem attach (linked : armor.IsLinked store) {keyword : FormReference}
    (known : (store.get? keyword).map (fun form => form.record.type) = some .keyword) :
    (armor.attach keyword).IsLinked store := by
  unfold Armor.attach
  split
  · exact linked
  · next missing =>
    have apart : ∀ carried ∈ armor.keywords, carried.same keyword = false := by
      intro carried member
      rw [FormReference.same_comm]
      rw [Bool.eq_false_iff]
      exact fun same => missing (List.any_eq_true.2 ⟨carried, member, same⟩)
    refine ⟨List.pairwise_append.2 ⟨linked.distinct, List.pairwise_singleton _ _, ?_⟩, ?_⟩
    · simpa using apart
    · exact List.forall_mem_append.2 ⟨linked.known, List.forall_mem_singleton.2 known⟩

/-- Attaching keywords of the store keeps a list linked. -/
theorem foldl_attach {keywords : List FormReference} (linked : armor.IsLinked store)
    (known : ∀ keyword ∈ keywords,
      (store.get? keyword).map (fun form => form.record.type) = some .keyword) :
    (keywords.foldl Armor.attach armor).IsLinked store := by
  induction keywords generalizing armor with
  | nil => exact linked
  | cons keyword keywords ih =>
    rw [List.forall_mem_cons] at known
    exact ih (linked.attach known.1) known.2

/-- An edit keeps the list of an armor linked when its texts resolve to keywords. -/
theorem edit (linked : armor.IsLinked store) {operation : ArmorOperation}
    {keywords : List FormReference}
    (known : ∀ keyword ∈ keywords,
      (store.get? keyword).map (fun form => form.record.type) = some .keyword)
    (made : operation.edit keywords armor = .ok edited) : edited.IsLinked store := by
  cases operation with
  | addKeywords texts =>
    obtain rfl := Except.ok.inj made
    exact linked.foldl_attach known
  | removeKeywords texts =>
    obtain rfl := Except.ok.inj made
    exact linked.sublist List.filter_sublist
  | clearKeywords =>
    obtain rfl := Except.ok.inj made
    exact linked.sublist (List.nil_sublist _)
  | setRating | setWeight | setValue =>
    obtain ⟨given, _, same⟩ := Failure.bind_eq_ok.1 made
    obtain rfl := Except.ok.inj same
    exact linked.congr rfl
  | setSlots | addSlots | removeSlots | clearSlots | setFullName =>
    obtain rfl := Except.ok.inj made
    exact linked.congr rfl

end IsLinked

end Armor

/-- The armor in a record is there exactly when the record is that armor. -/
theorem Record.armor?_eq_some {record : Record} {armor : Armor} :
    record.armor? = some armor ↔ record = .armor armor := by
  cases record <;> simp [armor?]

/-- Whether the keywords of every armor in a store are well kept. -/
def Store.IsLinked (store : Store) : Prop :=
  ∀ entry ∈ store.forms.entries, ∀ armor ∈ entry.2.record.armor?, armor.IsLinked store

instance (store : Store) (armor : Armor) : Decidable (armor.IsLinked store) :=
  decidable_of_iff (_ ∧ _)
    ⟨fun linked => ⟨linked.1, linked.2⟩, fun linked => ⟨linked.distinct, linked.known⟩⟩

instance (store : Store) : Decidable store.IsLinked :=
  inferInstanceAs (Decidable (∀ entry ∈ store.forms.entries, _))

namespace Store.IsLinked

variable {store : Store}

/-- The armor under a reference is linked. -/
theorem armor {reference : FormReference} {form : Form} {armor : Armor} (linked : store.IsLinked)
    (found : store.get? reference = some form) (record : form.record = .armor armor) :
    armor.IsLinked store := by
  obtain ⟨entry, looked, rfl⟩ := Option.map_eq_some_iff.1 found
  exact linked entry (List.mem_of_find?_eq_some looked) armor (Record.armor?_eq_some.2 record)

/-- A change of one form that keeps its type and leaves it a linked armor, if it is one, keeps the
store linked. -/
theorem modify {reference : FormReference} {change : Form → Form} (linked : store.IsLinked)
    (types : ∀ form, store.get? reference = some form →
      (change form).record.type = form.record.type)
    (armors : ∀ form, store.get? reference = some form →
      ∀ armor ∈ (change form).record.armor?, armor.IsLinked store) :
    (store.modify reference change).IsLinked := by
  have skeleton : (store.modify reference change).skeleton = store.skeleton :=
    skeleton_modify types
  intro entry member armor record
  refine Armor.IsLinked.of_skeleton ?_ skeleton
  obtain ⟨old, listed, rfl⟩ := List.mem_map.1 member
  split at record
  · next touched =>
    have found := store.forms.get?_of_mem listed (beq_iff_eq.1 touched)
    exact armors old.2 found armor record
  · exact linked old listed armor record

end Store.IsLinked

/-- An edit keeps a store linked: the keywords that it attaches are found in the store. -/
theorem ArmorOperation.isLinked_apply {store : Store} (linked : store.IsLinked)
    (target : FormReference) (operation : ArmorOperation) :
    (operation.apply target store).store.IsLinked := by
  rcases operation.apply_cases target store with
    ⟨failure, opened, refused⟩ | ⟨keywords, armor, edited, resolved, opened, edit, applied⟩
  · rw [refused]
    exact linked
  · rw [applied]
    obtain ⟨form, found, record⟩ := armorAt_eq_ok.1 opened
    have known : ∀ keyword ∈ keywords,
        (store.get? keyword).map (fun form => form.record.type) = some .keyword := by
      intro keyword member
      obtain ⟨text, _, named⟩ := Failure.exists_of_mapM resolved keyword member
      obtain ⟨_, form, found, type⟩ := Store.resolveTyped_eq_ok named
      rw [found, Option.map_some, type]
    refine linked.modify (fun other found' => ?_) (fun other found' armor' record' => ?_)
    · obtain rfl : form = other := Option.some.inj (found.symm.trans found')
      rw [record]
      rfl
    · obtain rfl : edited = armor' := Option.some.inj record'
      exact (linked.armor found record).edit known edit

/-- An armor patch keeps a store linked. -/
theorem ArmorPatch.isLinked_apply {store : Store} (linked : store.IsLinked) (patch : ArmorPatch) :
    (patch.apply store).store.IsLinked := by
  unfold apply
  split
  · exact linked
  · refine Applied.forEach_keeps (motive := Store.IsLinked)
      (fun target _ reached linked => ?_) linked
    exact Applied.forEach_keeps (motive := Store.IsLinked)
      (fun operation _ reached linked => operation.isLinked_apply linked target) linked

/-- A keyword patch keeps a store linked: it changes no record. -/
theorem KeywordPatch.isLinked_apply {store : Store} (linked : store.IsLinked)
    (patch : KeywordPatch) : (patch.apply store).store.IsLinked := by
  rcases patch.apply_cases store with ⟨failure, refused⟩ | ⟨text, reference, _, applied⟩
  · rw [refused]
    exact linked
  · rw [applied]
    refine linked.modify (fun _ _ => rfl) fun form found armor member => ?_
    exact linked.armor found (Record.armor?_eq_some.1 member)

/-- A file keeps a store linked. -/
theorem PatchFile.isLinked_apply {store : Store} (linked : store.IsLinked) (file : PatchFile) :
    (file.apply store).store.IsLinked := by
  cases file with
  | armor statements =>
    exact applyAll_keeps (motive := Store.IsLinked) statements
      (fun patch _ _ linked => patch.isLinked_apply linked) linked
  | keyword statements =>
    exact applyAll_keeps (motive := Store.IsLinked) statements
      (fun patch _ _ linked => patch.isLinked_apply linked) linked

/-- A linked armor carries no keyword more than once. -/
theorem Armor.IsLinked.length_carried_le {store : Store} {armor : Armor}
    (linked : armor.IsLinked store) (keyword : FormReference) :
    (armor.carried keyword).length ≤ 1 := by
  have distinct := linked.distinct.filter keyword.same
  have spelled : ∀ carried ∈ armor.carried keyword, keyword.same carried = true :=
    fun carried member => (List.mem_filter.1 member).2
  change (armor.carried keyword).Pairwise _ at distinct
  -- Two spellings of one keyword would be two equal references in the list.
  match armor.carried keyword, distinct, spelled with
  | [], _, _ | [_], _, _ => simp
  | first :: second :: _, distinct, spelled =>
    rw [List.forall_mem_cons, List.forall_mem_cons] at spelled
    have apart := (List.pairwise_cons.1 distinct).1 second List.mem_cons_self
    rw [← FormReference.same_congr spelled.1, spelled.2.1] at apart
    cases apart

/-- Attaching keywords leaves a linked armor with exactly one spelling of each of them. -/
theorem Armor.IsLinked.length_carried_foldl_attach {store : Store} {armor : Armor}
    (linked : armor.IsLinked store) {keywords : List FormReference} {keyword : FormReference}
    (listed : keyword ∈ keywords) :
    ((keywords.foldl Armor.attach armor).carried keyword).length = 1 := by
  rw [carried_foldl_attach]
  split
  · have found : (keywords.find? keyword.same).isSome = true :=
      List.find?_isSome.2 ⟨keyword, listed, keyword.same_self⟩
    obtain ⟨spelling, found⟩ := Option.isSome_iff_exists.1 found
    rw [found]
    rfl
  · next carries =>
    have most := linked.length_carried_le keyword
    have least := List.length_pos_of_ne_nil carries
    omega

/-- Whether attaching keywords to an armor of a store leaves one spelling of each keyword that the
texts name, in whatever spellings they name it. -/
def Store.AttachesOnce (store : Store) : Prop :=
  ∀ target form armor texts, store.get? target = some form → form.record = .armor armor →
    (∀ text ∈ texts, ∃ keyword, store.Names text .keyword keyword) →
    ∃ edited : Armor,
      ((ArmorOperation.addKeywords texts).apply target store).store.get? target =
        some { form with record := .armor edited } ∧
      ∀ text ∈ texts, ∀ keyword, store.Names text .keyword keyword →
        (edited.carried keyword).length = 1

/-- In a linked store each keyword is attached once. -/
theorem Store.IsLinked.attachesOnce {store : Store} (linked : store.IsLinked) :
    store.AttachesOnce := by
  intro target form armor texts found record named
  have succeeds : ¬(ArmorOperation.addKeywords texts).Fails store := by
    rintro ⟨text, listed, unnamed⟩
    exact unnamed (named text listed)
  obtain ⟨keywords, resolved, edit⟩ := ArmorOperation.exists_edit succeeds
  obtain ⟨stored, _⟩ := ArmorOperation.apply_of_armor rfl found record (.addKeywords texts)
  have revised := (Except.ok.inj (edit armor)).symm
  refine ⟨keywords.foldl Armor.attach armor, ?_, fun text listed keyword naming => ?_⟩
  · rw [stored, Store.get?_modify, if_pos Std.ReflCmp.compare_self, found, Option.map_some,
      Form.onArmor_of_armor record, revised]
  · have listed' : keyword ∈ keywords := by
      obtain ⟨place, within, rfl⟩ := List.getElem_of_mem listed
      have naming' := resolved.get within (resolved.length_eq ▸ within)
      exact naming'.unique naming ▸ List.get_mem ..
    exact (linked.armor found record).length_carried_foldl_attach listed'

/-- Files keep a store linked, whatever they hold and in whatever order they come; and in a linked
store each keyword that an edit attaches is carried once. -/
theorem keywords_of_files (store : Store) (linked : store.IsLinked) (files : List PatchFile) :
    (Applied.forEach files PatchFile.apply store).store.IsLinked ∧
      (Applied.forEach files PatchFile.apply store).store.AttachesOnce := by
  have kept : (Applied.forEach files PatchFile.apply store).store.IsLinked :=
    Applied.forEach_keeps (motive := Store.IsLinked)
      (fun file _ _ linked => file.isLinked_apply linked) linked
  exact ⟨kept, kept.attachesOnce⟩

/-- An armor without keywords, and a keyword. -/
def plainHelmet : Store :=
  ⟨["Skyrim.esm"], .ofList
    [(⟨"Skyrim.esm", 18⟩, ⟨some "Helmet", .armor ⟨"Helmet", 1, default, default, 5, []⟩⟩),
      (⟨"Skyrim.esm", 26⟩, ⟨some "Heavy", .keyword⟩)]⟩

/-- An edit that attaches one keyword under two spellings. -/
def attachHeavyTwice : ArmorPatch :=
  ⟨.form "Skyrim.esm|12", .keywords, [.addKeywords ["skyrim.ESM|1A", "Skyrim.esm|0x01a"]]⟩

/-- The helmet ends up with the keyword once, in the spelling that came first. -/
theorem keywords_of_files_plainHelmet : plainHelmet.IsLinked ∧
    (Applied.forEach [.armor [.expression attachHeavyTwice]] PatchFile.apply
      plainHelmet).store.IsLinked ∧
    plainHelmet.Names "skyrim.ESM|1A" .keyword ⟨"skyrim.ESM", 26⟩ ∧
    plainHelmet.Names "Skyrim.esm|0x01a" .keyword ⟨"Skyrim.esm", 26⟩ ∧
    ((attachHeavyTwice.apply plainHelmet).store.get? ⟨"Skyrim.esm", 18⟩).bind
      (fun form => form.record.armor?.map Armor.keywords) = some [⟨"skyrim.ESM", 26⟩] := by
  have linked : plainHelmet.IsLinked := by decide +kernel
  refine ⟨linked, (keywords_of_files plainHelmet linked _).1, ?_, ?_, by decide +kernel⟩
  · exact Store.resolveTyped_eq_ok_iff.1 (by decide +kernel)
  · exact Store.resolveTyped_eq_ok_iff.1 (by decide +kernel)

end FormPatch
