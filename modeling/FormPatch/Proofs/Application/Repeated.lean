import FormPatch.Proofs.Application.Keywords

/-!
# Armor patches applied again

What edits in a row make of one part of an armor, such as its name, one slot or its spellings of one
keyword, is an overwrite: the part stays, or a value is put in its place, or a value is put where
there was nothing. Overwrites in a row are one overwrite, which changes nothing when it is made
again. The order of keywords is no part. Main statement: an armor patch that is applied again
changes nothing but the order of keywords.
-/

namespace FormPatch

/-- What edits in a row may come to for a part of an armor. -/
inductive Overwrite (α : Type) where
  /-- The part stays. -/
  | keep
  /-- A value is put where there is nothing. -/
  | fill (value : α)
  /-- A value is put in its place. -/
  | put (value : α)

namespace Overwrite

variable {α : Type} (isNothing : α → Bool)

/-- The part after an overwrite, given which values count as nothing. -/
def act : Overwrite α → α → α
  | keep, old => old
  | fill value, old => if isNothing old then value else old
  | put value, _ => value

/-- Two overwrites in a row. -/
def andThen : Overwrite α → Overwrite α → Overwrite α
  | keep, second => second
  | fill first, fill second => fill (act isNothing (fill second) first)
  | fill first, keep => fill first
  | fill _, put second => put second
  | put first, second => put (second.act isNothing first)

/-- Two overwrites in a row act as their joint one. -/
theorem act_andThen (first second : Overwrite α) (old : α) :
    (first.andThen isNothing second).act isNothing old =
      second.act isNothing (first.act isNothing old) := by
  cases first with
  | keep | put => rfl
  | fill value =>
    cases second with
    | keep | put => rfl
    | fill other =>
      simp only [andThen, act]
      split <;> simp

/-- An overwrite that is made again changes nothing. -/
theorem act_act (overwrite : Overwrite α) (old : α) :
    overwrite.act isNothing (overwrite.act isNothing old) = overwrite.act isNothing old := by
  cases overwrite with
  | keep | put => rfl
  | fill value =>
    simp only [act]
    split
    · split <;> rfl
    · rfl

end Overwrite

namespace Armor

/-- A part of an armor that is overwritten as a whole. -/
structure Part (α : Type) where
  /-- What the part is. -/
  read : Armor → α
  /-- Whether there is nothing in it. -/
  isNothing : α → Bool := fun _ => false

namespace Part

/-- The name. -/
def fullName : Part String := { read := Armor.fullName }

/-- The rating. -/
def rating : Part Number.Single := { read := Armor.rating }

/-- The weight. -/
def weight : Part Number.Single := { read := Armor.weight }

/-- The value. -/
def value : Part UInt32 := { read := Armor.value }

/-- One slot. -/
def slot (place : Fin 32) : Part Bool :=
  { read := fun armor => armor.slots.toBitVec[place] }

/-- The spellings of one keyword. -/
def spellings (keyword : FormReference) : Part (List FormReference) :=
  { read := fun armor => armor.carried keyword, isNothing := List.isEmpty }

variable {α : Type} {part : Part α} {step first second : Armor → Armor}

/-- Whether what a step makes of a part is an overwrite. -/
def Overwrites (part : Part α) (step : Armor → Armor) : Prop :=
  ∃ overwrite : Overwrite α, ∀ armor,
    part.read (step armor) = overwrite.act part.isNothing (part.read armor)

namespace Overwrites

/-- A part that stays is overwritten, namely by keeping it. -/
theorem kept (same : ∀ armor, part.read (step armor) = part.read armor) : part.Overwrites step :=
  ⟨.keep, same⟩

/-- A part that two steps overwrite is overwritten by both in a row. -/
theorem comp (later : part.Overwrites second) (earlier : part.Overwrites first) :
    part.Overwrites (second ∘ first) := by
  obtain ⟨before, acts⟩ := earlier
  obtain ⟨behind, acts'⟩ := later
  refine ⟨before.andThen part.isNothing behind, fun armor => ?_⟩
  rw [Overwrite.act_andThen, ← acts, ← acts', Function.comp_apply]

/-- A step that is made again leaves a part that it overwrites. -/
theorem again (overwrites : part.Overwrites step) (armor : Armor) :
    part.read (step (step armor)) = part.read (step armor) := by
  obtain ⟨overwrite, acts⟩ := overwrites
  rw [acts, acts, Overwrite.act_act]

end Overwrites

/-- Adding slots puts each of them. -/
theorem slot_addSlots (slots : SlotSet) (place : Fin 32) :
    (slot place).Overwrites fun armor => { armor with slots := armor.slots ||| slots } := by
  have added (armor : Armor) : (armor.slots ||| slots).toBitVec[place] =
      (armor.slots.toBitVec[place] || slots.toBitVec[place]) := by
    simp
  cases listed : slots.toBitVec[place] with
  | false =>
    simp only [listed, Bool.or_false] at added
    exact .kept added
  | true =>
    simp only [listed, Bool.or_true] at added
    exact ⟨.put true, added⟩

/-- Removing slots leaves none of them. -/
theorem slot_removeSlots (slots : SlotSet) (place : Fin 32) :
    (slot place).Overwrites fun armor => { armor with slots := armor.slots &&& ~~~slots } := by
  have left (armor : Armor) : (armor.slots &&& ~~~slots).toBitVec[place] =
      (armor.slots.toBitVec[place] && !slots.toBitVec[place]) := by
    simp
  cases listed : slots.toBitVec[place] with
  | false =>
    simp only [listed, Bool.not_false, Bool.and_true] at left
    exact .kept left
  | true =>
    simp only [listed, Bool.not_true, Bool.and_false] at left
    exact ⟨.put false, left⟩

end Part

/-- Whether a step overwrites each part of an armor; a part of which nothing is said stays. -/
structure Settles (step : Armor → Armor) : Prop where
  /-- The name is overwritten. -/
  fullName : Part.fullName.Overwrites step := by exact .kept fun _ => rfl
  /-- The rating is overwritten. -/
  rating : Part.rating.Overwrites step := by exact .kept fun _ => rfl
  /-- The weight is overwritten. -/
  weight : Part.weight.Overwrites step := by exact .kept fun _ => rfl
  /-- The value is overwritten. -/
  value : Part.value.Overwrites step := by exact .kept fun _ => rfl
  /-- Each slot is overwritten. -/
  slot : ∀ place, (Part.slot place).Overwrites step := by exact fun _ => .kept fun _ => rfl
  /-- The spellings of each keyword are overwritten. -/
  spellings : ∀ keyword, (Part.spellings keyword).Overwrites step := by
    exact fun _ => .kept fun _ => rfl

/-- Whether two armors differ at most in the order of their keywords. -/
structure Reordered (left right : Armor) : Prop where
  /-- The keywords are the same ones. -/
  keywords : left.keywords.Perm right.keywords
  /-- Everything else is the same. -/
  others : left = { right with keywords := left.keywords }

namespace Reordered

/-- An armor differs from itself in nothing. -/
theorem refl (armor : Armor) : armor.Reordered armor := ⟨.refl _, rfl⟩

/-- Armors that differ from one armor in the order of keywords at most do so from each other. -/
theorem trans {first second third : Armor} (before : first.Reordered second)
    (behind : second.Reordered third) : first.Reordered third :=
  ⟨before.keywords.trans behind.keywords, before.others.trans
    (congrArg (fun armor : Armor => { armor with keywords := first.keywords }) behind.others)⟩

end Reordered

/-- Armors with the same spellings of each keyword have the same keywords. -/
theorem perm_of_carried {left right : Armor}
    (same : ∀ keyword, left.carried keyword = right.carried keyword) :
    left.keywords.Perm right.keywords := by
  have counted (armor : Armor) (keyword : FormReference) :
      (armor.carried keyword).count keyword = armor.keywords.count keyword :=
    List.count_filter keyword.same_self
  refine List.perm_iff_count.2 fun keyword => ?_
  rw [← counted left, ← counted right, same keyword]

namespace Settles

variable {step change first second : Armor → Armor}

/-- A step that is no other one settles an armor as that one does. -/
theorem congr (settles : Settles change) (same : ∀ armor, step armor = change armor) :
    Settles step :=
  (funext same : step = change) ▸ settles

/-- Leaving every armor overwrites nothing. -/
theorem nothing : Settles id := {}

/-- Steps that settle an armor settle it in a row. -/
theorem comp (later : Settles second) (earlier : Settles first) : Settles (second ∘ first) where
  fullName := later.fullName.comp earlier.fullName
  rating := later.rating.comp earlier.rating
  weight := later.weight.comp earlier.weight
  value := later.value.comp earlier.value
  slot place := (later.slot place).comp (earlier.slot place)
  spellings keyword := (later.spellings keyword).comp (earlier.spellings keyword)

/-- Steps in a row overwrite each part when each of them does. -/
theorem foldl {α : Type} {change : α → Armor → Armor} (settles : ∀ item, Settles (change item))
    (items : List α) :
    Settles fun armor => items.foldl (fun armor item => change item armor) armor := by
  induction items with
  | nil => exact nothing
  | cons item items ih => exact ih.comp (settles item)

/-- A step that is made again changes nothing but the order of keywords. -/
theorem again (settles : Settles step) (armor : Armor) :
    (step (step armor)).Reordered (step armor) := by
  have slots : (step (step armor)).slots = (step armor).slots :=
    UInt32.toBitVec_inj.1 (BitVec.eq_of_getElem_eq fun place within =>
      (settles.slot ⟨place, within⟩).again armor)
  refine ⟨perm_of_carried fun keyword => (settles.spellings keyword).again armor, ?_⟩
  exact Armor.mk.injEq .. ▸ ⟨settles.fullName.again armor, slots, settles.rating.again armor,
    settles.weight.again armor, settles.value.again armor, rfl⟩

/-- Attaching a keyword puts its spelling where there is none. -/
theorem attach (keyword : FormReference) : Settles fun armor => armor.attach keyword := by
  have kept {α : Type} {part : Part α}
      (apart : ∀ armor keywords, part.read { armor with keywords := keywords } = part.read armor) :
      part.Overwrites fun armor => armor.attach keyword := by
    refine .kept fun armor => ?_
    unfold Armor.attach
    split
    · rfl
    · exact apart armor _
  exact {
    fullName := kept fun _ _ => rfl
    rating := kept fun _ _ => rfl
    weight := kept fun _ _ => rfl
    value := kept fun _ _ => rfl
    slot := fun _ => kept fun _ _ => rfl
    spellings := fun other => by
      by_cases same : other.same keyword = true
      · refine ⟨.fill [keyword], fun armor => (carried_attach armor keyword other).trans ?_⟩
        simp [same, Overwrite.act, Part.spellings]
      · refine .kept fun armor => (carried_attach armor keyword other).trans ?_
        rw [if_neg fun both => same both.1]
        rfl }

/-- Detaching keywords leaves no spelling of theirs. -/
theorem detach (keywords : List FormReference) : Settles fun armor => armor.detach keywords where
  spellings other := by
    by_cases listed : keywords.any other.same = true
    · refine ⟨.put [], fun armor => (carried_detach armor keywords other).trans ?_⟩
      rw [if_pos listed]
      rfl
    · refine .kept fun armor => (carried_detach armor keywords other).trans ?_
      rw [if_neg listed]
      rfl

/-- A step that puts what passes a check overwrites each part when it does so for every value. -/
theorem of_checked {α : Type} {check : Except Failure α} {change : α → Armor → Armor}
    (settles : ∀ checked, Settles (change checked))
    (made : ∀ armor, (check >>= fun checked => .ok (change checked armor)) =
      Except.ok (step armor)) : Settles step := by
  cases check with
  | error failure => exact nothing.congr fun armor => nomatch made armor
  | ok checked => exact (settles checked).congr fun armor => (Except.ok.inj (made armor)).symm

/-- An edit overwrites each part. -/
theorem edit {operation : ArmorOperation} {keywords : List FormReference}
    (made : ∀ armor, operation.edit keywords armor = .ok (step armor)) : Settles step := by
  have changed {change : Armor → Armor} (settles : Settles change)
      (edits : ∀ armor, operation.edit keywords armor = .ok (change armor)) : Settles step :=
    settles.congr fun armor => Except.ok.inj ((made armor).symm.trans (edits armor))
  -- A field that an edit does not name stays, which is what the parts left out say.
  cases operation with
  | setSlots slots =>
    exact changed { slot := fun place => ⟨.put slots.toBitVec[place], fun _ => rfl⟩ }
      fun _ => rfl
  | addSlots slots =>
    exact changed { slot := Part.slot_addSlots slots } fun _ => rfl
  | removeSlots slots =>
    exact changed { slot := Part.slot_removeSlots slots } fun _ => rfl
  | clearSlots =>
    refine changed { slot := fun place => ⟨.put false, fun armor => ?_⟩ } fun _ => rfl
    exact BitVec.getElem_zero place.isLt
  | setFullName name => exact changed { fullName := ⟨.put name, fun _ => rfl⟩ } fun _ => rfl
  | setRating => exact of_checked (fun checked => { rating := ⟨.put checked, fun _ => rfl⟩ }) made
  | setWeight => exact of_checked (fun checked => { weight := ⟨.put checked, fun _ => rfl⟩ }) made
  | setValue => exact of_checked (fun checked => { value := ⟨.put checked, fun _ => rfl⟩ }) made
  | addKeywords => exact changed (foldl attach keywords) fun _ => rfl
  | removeKeywords => exact changed (detach keywords) fun _ => rfl
  | clearKeywords =>
    exact changed { spellings := fun _ => ⟨.put [], fun _ => rfl⟩ } fun _ => rfl

/-- An edit that leaves the armor where it fails overwrites each part. -/
theorem revise (store : Store) (operation : ArmorOperation) : Settles (operation.revise store) := by
  by_cases fails : operation.Fails store
  · exact nothing.congr (ArmorOperation.revise_of_fails fails)
  · obtain ⟨keywords, _, made⟩ := ArmorOperation.exists_edit fails
    exact edit made

end Settles

end Armor

namespace ArmorOperation

/-- What edits make of an armor depends on the skeleton of the store only. -/
theorem reviseAll_of_skeleton {left right : Store} (same : left.skeleton = right.skeleton)
    (operations : List ArmorOperation) :
    reviseAll left operations = reviseAll right operations := by
  funext armor
  simp only [reviseAll, revise, attempt, Store.resolveTyped_of_skeleton same]

/-- Edits that are made again in a row change nothing but the order of keywords. -/
theorem reordered_reviseAll (store : Store) (operations : List ArmorOperation) (armor : Armor) :
    (reviseAll store operations (reviseAll store operations armor)).Reordered
      (reviseAll store operations armor) :=
  (Armor.Settles.foldl (Armor.Settles.revise store) operations).again armor

end ArmorOperation

/-- Whether two records differ at most in the order of an armor's keywords. -/
inductive Record.Reordered : Record → Record → Prop
  /-- Two armors do. -/
  | armor {left right : Armor} (reordered : left.Reordered right) :
      Reordered (.armor left) (.armor right)
  /-- Two keywords are the same. -/
  | keyword : Reordered .keyword .keyword

/-- Whether two forms differ at most in the order of an armor's keywords. -/
structure Form.Reordered (left right : Form) : Prop where
  /-- The editor ID is the same. -/
  editorId : left.editorId = right.editorId
  /-- The records do. -/
  record : left.record.Reordered right.record

namespace Form.Reordered

/-- A form differs from itself in nothing. -/
theorem refl (form : Form) : form.Reordered form := by
  obtain ⟨editorId, record⟩ := form
  cases record with
  | armor armor => exact ⟨rfl, .armor (.refl armor)⟩
  | keyword => exact ⟨rfl, .keyword⟩

/-- Forms that differ from one form in the order of keywords at most do so from each other. -/
theorem trans {first second third : Form} (before : first.Reordered second)
    (behind : second.Reordered third) : first.Reordered third := by
  obtain ⟨firstId, first⟩ := first
  obtain ⟨secondId, second⟩ := second
  obtain ⟨thirdId, third⟩ := third
  refine ⟨before.editorId.trans behind.editorId, ?_⟩
  match first, second, third, before.record, behind.record with
  | _, _, _, .armor earlier, .armor later => exact .armor (earlier.trans later)
  | _, _, _, .keyword, .keyword => exact .keyword

/-- A change that only reorders keywords when it is made again does the same to a form. -/
theorem onArmor {change : Armor → Armor}
    (again : ∀ armor, (change (change armor)).Reordered (change armor)) (form : Form) :
    ((form.onArmor change).onArmor change).Reordered (form.onArmor change) := by
  obtain ⟨editorId, record⟩ := form
  cases record with
  | armor armor => exact ⟨rfl, .armor (again armor)⟩
  | keyword => exact ⟨rfl, .keyword⟩

end Form.Reordered

/-- Whether two stores differ at most in the order of the keywords of their armors. -/
structure Store.Reordered (left right : Store) : Prop where
  /-- The load order is the same. -/
  plugins : left.plugins = right.plugins
  /-- The same forms stand under the same references, but for the order of keywords. -/
  forms : List.Forall₂ (fun before after => before.1 = after.1 ∧ before.2.Reordered after.2)
    left.forms.entries right.forms.entries

namespace Store.Reordered

/-- A store differs from itself in nothing. -/
theorem refl (store : Store) : store.Reordered store :=
  ⟨rfl, List.forall₂_same.2 fun entry _ => ⟨rfl, .refl entry.2⟩⟩

/-- Stores that differ from one store in the order of keywords at most do so from each other. -/
theorem trans {first second third : Store} (before : first.Reordered second)
    (behind : second.Reordered third) : first.Reordered third := by
  refine ⟨before.plugins.trans behind.plugins, ?_⟩
  refine List.forall₂_iff_get.2 ⟨before.forms.length_eq.trans behind.forms.length_eq, ?_⟩
  intro place within within'
  have between := before.forms.length_eq ▸ within
  obtain ⟨key, form⟩ := before.forms.get within between
  obtain ⟨key', form'⟩ := behind.forms.get between within'
  exact ⟨key.trans key', form.trans form'⟩

end Store.Reordered

/-- What a filter selects of an entry depends, besides the entry, on the skeleton only. -/
theorem ArmorFilter.selects_of_skeleton {left right : Store} (same : left.skeleton = right.skeleton)
    (filter : ArmorFilter) (entry : FormReference × Form) :
    filter.Selects left entry ↔ filter.Selects right entry := by
  cases filter with
  | form text | keyword text => simp only [Selects, Store.names_of_skeleton same]

namespace ArmorPatch

variable {patch : ArmorPatch} {store : Store}

/-- A patch whose filter fails leaves the store. -/
theorem store_apply_of_error {failure : Failure} (failed : patch.targets store = .error failure) :
    (patch.apply store).store = store := by
  rw [apply, failed]
  rfl

/-- What the filter selects afterwards was edited: any other armor keeps its keywords, so it would
have been selected before. -/
theorem edited_of_selects {targets : List FormReference} (found : patch.targets store = .ok targets)
    {entry : FormReference × Form} (member : entry ∈ (patch.apply store).store.forms.entries)
    (selected : patch.filter.Selects (patch.apply store).store entry) :
    ∃ form : Form, entry.2 = form.onArmor (ArmorOperation.reviseAll store patch.operations) := by
  have performs := performs found
  rw [patch.filter.selects_of_skeleton (patch.skeleton_apply store)] at selected
  rw [performs.stored] at member
  obtain ⟨⟨reference, form⟩, listed, rfl⟩ := List.mem_map.1 member
  split at selected
  · next touched =>
    rw [if_pos touched]
    exact ⟨form, rfl⟩
  · next untouched => exact absurd ((performs.selected _ listed).2 selected) untouched

/-- A patch that is applied again changes nothing but the order of keywords. -/
theorem reordered_apply (patch : ArmorPatch) (store : Store) :
    (patch.apply (patch.apply store).store).store.Reordered (patch.apply store).store := by
  cases found : patch.targets store with
  | error failure =>
    rw [store_apply_of_error found, store_apply_of_error found]
    exact .refl store
  | ok targets =>
    cases found' : patch.targets (patch.apply store).store with
    | error failure =>
      rw [store_apply_of_error found']
      exact .refl _
    | ok targets' =>
      have performs := performs found'
      rw [performs.stored, ArmorOperation.reviseAll_of_skeleton (patch.skeleton_apply store)]
      -- The targets may be fewer than before, as an edit may take the keyword of the filter away;
      -- there are no new ones among them.
      refine ⟨rfl, List.forall₂_map_left_iff.2 (List.forall₂_same.2 fun entry member => ?_)⟩
      split
      · next touched =>
        obtain ⟨form, edited⟩ :=
          edited_of_selects found member ((performs.selected entry member).1 touched)
        rw [edited]
        exact ⟨rfl, .onArmor (ArmorOperation.reordered_reviseAll store patch.operations) form⟩
      · exact ⟨rfl, .refl entry.2⟩

end ArmorPatch

/-- An armor patch that is applied again, once or more often, changes nothing but the order of
keywords. -/
theorem repeated_armor_patches (patch : ArmorPatch) (store : Store) :
    (patch.apply (patch.apply store).store).store.Reordered (patch.apply store).store ∧
      ∀ times, (Applied.forEach (List.replicate times patch) ArmorPatch.apply
        (patch.apply store).store).store.Reordered (patch.apply store).store := by
  refine ⟨patch.reordered_apply store, fun times => ?_⟩
  induction times generalizing store with
  | zero => exact .refl _
  | succ times ih =>
    rw [List.replicate_succ, Applied.forEach_cons, Applied.store_andThen]
    exact (ih (patch.apply store).store).trans (patch.reordered_apply store)

/-- A keyword that is detached and attached again goes behind one that was attached after it. -/
example :
    let store : Store := ⟨["a.esm"], .ofList
      [(⟨"a.esm", 1⟩, ⟨none, .armor ⟨"Hood", 0, default, default, 0, []⟩⟩),
        (⟨"a.esm", 2⟩, ⟨none, .keyword⟩), (⟨"a.esm", 3⟩, ⟨none, .keyword⟩)]⟩
    let patch : ArmorPatch := ⟨.form "a.esm|1", .keywords,
      [.removeKeywords ["a.esm|2"], .addKeywords ["a.esm|2", "a.esm|3"]]⟩
    let keywords (store : Store) : Option (List UInt32) :=
      ((store.get? ⟨"a.esm", 1⟩).bind (·.record.armor?)).map (·.keywords.map (·.id))
    keywords (patch.apply store).store = some [2, 3] ∧
      keywords (patch.apply (patch.apply store).store).store = some [3, 2] := by
  decide +kernel

end FormPatch
