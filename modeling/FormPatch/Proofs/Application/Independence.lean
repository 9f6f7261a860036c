import FormPatch.Proofs.Application.Runs

/-!
# Runs that do not interfere

A run looks at one part of every form and writes to that part only; what it reports and opens
depends on nothing else. Armor patches look at records. Keyword patches look at record types and
editor IDs. Two runs with different parts give the same store in both orders, and each one reports
and opens the same whether it comes first or last.
-/

namespace FormPatch

variable {α β γ : Type}

/-- Whether two runs reported and opened the same. -/
structure Applied.TellsAs (left right : Applied) : Prop where
  /-- The same was reported. -/
  reports : left.reports = right.reports
  /-- The same forms were opened. -/
  opened : left.opened = right.opened

/-- Whether two runs told the same and reached stores that cannot be told apart by a part of their
forms. -/
structure Applied.Alike (part : Form → β) (left right : Applied) : Prop
    extends left.TellsAs right where
  /-- The stores show the same. -/
  view : left.store.view part = right.store.view part

/-- Whether two runs do not interfere: both orders lead to one store, and each run reports and opens
the same whether it comes first or last. -/
structure Applied.Independent (first second : Store → Applied) (store : Store) : Prop where
  /-- Both orders lead to one store. -/
  stores : (second (first store).store).store = (first (second store).store).store
  /-- The first run tells the same behind the second one. -/
  firstTells : (first (second store).store).TellsAs (first store)
  /-- The second run tells the same behind the first one. -/
  secondTells : (second (first store).store).TellsAs (second store)

/-- A run over what was looked up, which is refused where that failed. -/
def Applied.ofFound {δ : Type} (type : RecordType) (run : δ → Store → Applied) :
    Except Failure δ → Store → Applied
  | .error failure, store => .refused store type failure []
  | .ok found, store => run found store

/-- An armor patch finds its targets and makes its edits on them, or reports why there are none. -/
theorem ArmorPatch.apply_eq (patch : ArmorPatch) : patch.apply = fun store =>
    Applied.ofFound .armor (fun targets => (Applied.forEach targets fun target =>
      Applied.forEach patch.operations (ArmorOperation.apply target)))
        (patch.targets store) store := by
  funext store
  unfold apply
  cases patch.targets store <;> rfl

/-- A keyword patch finds its target and renames it, or reports why there is none. -/
theorem KeywordPatch.apply_eq (patch : KeywordPatch) : patch.apply = fun store =>
    Applied.ofFound .keyword (fun reference store => ⟨store.modify reference fun form =>
      { form with editorId := some patch.editorId }, [], [reference]⟩)
        (patch.target store) store := by
  funext store
  unfold apply
  cases patch.target store <;> rfl

/-- Whether a run looks at and writes to one part of every form and keeps another part. -/
structure Confined (part : Form → β) (other : Form → γ) (run : Store → Applied) : Prop where
  /-- Stores that show the same part are treated alike. -/
  alike : ∀ left right : Store, left.view part = right.view part →
    Applied.Alike part (run left) (run right)
  /-- The other part stays. -/
  keeps : ∀ store : Store, (run store).store.view other = store.view other

namespace Confined

variable {part : Form → β} {other : Form → γ}

/-- Reporting something, with the store as it is. -/
theorem reporting (reports : List Diagnostic) (opened : List FormReference) :
    Confined part other fun store => ⟨store, reports, opened⟩ :=
  ⟨fun _ _ same => ⟨⟨rfl, rfl⟩, same⟩, fun _ => rfl⟩

/-- Two runs in a row. -/
theorem andThen {first second : Store → Applied} (here : Confined part other first)
    (behind : Confined part other second) :
    Confined part other fun store => (first store).andThen second := by
  refine ⟨fun left right same => ?_, fun store => ?_⟩
  · obtain ⟨⟨reports, opened⟩, view⟩ := here.alike left right same
    obtain ⟨⟨reports', opened'⟩, view'⟩ := behind.alike _ _ view
    refine ⟨⟨?_, ?_⟩, view'⟩
    · simp only [Applied.andThen, reports, reports']
    · simp only [Applied.andThen, opened, opened']
  · exact (behind.keeps _).trans (here.keeps store)

/-- A run for each item of a list. -/
theorem forEach {items : List α} {step : α → Store → Applied}
    (each : ∀ item ∈ items, Confined part other (step item)) :
    Confined part other (Applied.forEach items step) := by
  induction items with
  | nil => exact reporting [] []
  | cons item items ih =>
    have joined : Applied.forEach (item :: items) step =
        fun store => (step item store).andThen (Applied.forEach items step) :=
      funext (Applied.forEach_cons item items step)
    rw [joined]
    exact (each item List.mem_cons_self).andThen
      (ih fun other member => each other (List.mem_cons_of_mem item member))

/-- A run that is chosen by what the store shows. -/
theorem choice {δ : Type} (choose : Store → δ) (run : δ → Store → Applied)
    (chosen : ∀ left right : Store, left.view part = right.view part → choose left = choose right)
    (each : ∀ found, Confined part other (run found)) :
    Confined part other fun store => run (choose store) store := by
  refine ⟨fun left right same => ?_, fun store => (each _).keeps store⟩
  rw [chosen left right same]
  exact (each _).alike left right same

/-- A run over what was looked up. -/
theorem ofFound {δ : Type} {type : RecordType} {run : δ → Store → Applied}
    (each : ∀ found, Confined part other (run found)) (found : Except Failure δ) :
    Confined part other (Applied.ofFound type run found) := by
  cases found with
  | error failure => exact .reporting _ _
  | ok found => exact each found

/-- Runs do not interfere when each one keeps what the other one looks at. -/
theorem independent {first second : Store → Applied}
    (whole : Function.Injective fun form => (part form, other form))
    (one : Confined part other first) (two : Confined other part second) (store : Store) :
    Applied.Independent first second store where
  stores := by
    have behind := two.alike _ _ (one.keeps store)
    have behind' := one.alike _ _ (two.keeps store)
    refine Store.eq_of_views whole ?_ ?_
    · exact (two.keeps _).trans behind'.view.symm
    · exact behind.view.trans (one.keeps _).symm
  firstTells := (one.alike _ _ (two.keeps store)).toTellsAs
  secondTells := (two.alike _ _ (one.keeps store)).toTellsAs

section Tree

variable {patch : α → Store → Applied}

/-- A guarded run is confined when what it may go on with is and the guard is answered by what is
looked at. -/
theorem guarded {holding failing : Store → Applied}
    (hosts : ∀ left right : Store, left.view part = right.view part → left.host = right.host)
    (guard : Guard) (here : Confined part other holding) (behind : Confined part other failing) :
    Confined part other fun store =>
      (⟨store, (guard.evaluate store.host).2, []⟩ : Applied).andThen
        (if (guard.evaluate store.host).1 then holding else failing) := by
  refine choice Store.host (fun host store =>
    (⟨store, (guard.evaluate host).2, []⟩ : Applied).andThen
      (if (guard.evaluate host).1 then holding else failing)) hosts fun host => ?_
  refine (reporting _ _).andThen ?_
  split
  · exact here
  · exact behind

mutual

/-- Applying a statement is confined as its expressions are. -/
theorem statement
    (hosts : ∀ left right : Store, left.view part = right.view part → left.host = right.host)
    (each : ∀ payload, Confined part other (patch payload)) (tree : Statement α) :
    Confined part other (tree.apply patch) := by
  cases tree with
  | expression payload => exact each payload
  | conditional guard body otherwise =>
    exact guarded hosts guard (statements hosts each body) (chain hosts each otherwise)

/-- Applying statements is confined as their expressions are. -/
theorem statements
    (hosts : ∀ left right : Store, left.view part = right.view part → left.host = right.host)
    (each : ∀ payload, Confined part other (patch payload)) (trees : List (Statement α)) :
    Confined part other (applyAll patch trees) := by
  cases trees with
  | nil => exact reporting [] []
  | cons tree trees => exact (statement hosts each tree).andThen (statements hosts each trees)

/-- Applying a chain is confined as its expressions are. -/
theorem chain
    (hosts : ∀ left right : Store, left.view part = right.view part → left.host = right.host)
    (each : ∀ payload, Confined part other (patch payload)) (tree : Otherwise α) :
    Confined part other (tree.apply patch) := by
  cases tree with
  | nothing => exact reporting [] []
  | block body => exact statements hosts each body
  | branch guard body otherwise =>
    exact guarded hosts guard (statements hosts each body) (chain hosts each otherwise)

end

end Tree

end Confined

/-- The record type and the editor ID of a form. -/
def Form.caption (form : Form) : RecordType × Option String := (form.record.type, form.editorId)

/-- A caption and a record make up a form. -/
theorem Form.injective_parts :
    Function.Injective fun form : Form => (form.caption, form.record) := by
  rintro ⟨editorId, record⟩ ⟨editorId', record'⟩ same
  simp only [Prod.mk.injEq, caption] at same
  obtain ⟨⟨_, rfl⟩, rfl⟩ := same
  rfl

namespace Store

variable {left right : Store}

/-- Records show the skeleton. -/
theorem skeleton_of_records (same : left.view Form.record = right.view Form.record) :
    left.skeleton = right.skeleton :=
  view_comp same Record.type

/-- Captions show the skeleton. -/
theorem skeleton_of_captions (same : left.view Form.caption = right.view Form.caption) :
    left.skeleton = right.skeleton :=
  view_comp same Prod.fst

/-- The armors that carry a keyword are read off the records. -/
theorem armorsWith_of_records (same : left.view Form.record = right.view Form.record)
    (keyword : FormReference) : left.armorsWith keyword = right.armorsWith keyword := by
  have shown (store : Store) : store.armorsWith keyword =
      (((store.view Form.record).2.filter fun entry => entry.2.type == .armor).filter fun entry =>
        entry.2.armor?.any fun armor => armor.hasKeyword keyword).map Prod.fst := by
    simp only [armorsWith, ofType, view, List.filter_map, List.map_map]
    rfl
  rw [shown, shown, same]

/-- The keyword with an editor ID is read off the captions. -/
theorem findKeyword_of_captions (same : left.view Form.caption = right.view Form.caption)
    (text : String) :
    (((left.ofType .keyword).find? fun entry => entry.2.isCalled text).map Prod.fst) =
      ((right.ofType .keyword).find? fun entry => entry.2.isCalled text).map Prod.fst := by
  have shown (store : Store) :
      (((store.ofType .keyword).find? fun entry => entry.2.isCalled text).map Prod.fst) =
        ((((store.view Form.caption).2.filter fun entry => entry.2.1 == .keyword).find?
          fun entry => entry.2.2.any (Text.agree text)).map Prod.fst) := by
    simp only [ofType, view, List.filter_map, List.find?_map, Option.map_map]
    rfl
  rw [shown, shown, same]

end Store

namespace ArmorOperation

/-- The armor under a reference is read off the records. -/
theorem armorAt_of_records {left right : Store}
    (same : left.view Form.record = right.view Form.record) (reference : FormReference) :
    armorAt left reference = armorAt right reference := by
  have records := Store.get?_of_view Form.record same reference
  unfold armorAt
  cases found : left.get? reference <;> cases found' : right.get? reference <;> simp_all

/-- An edit looks at records and writes to them only. -/
theorem confined_apply (target : FormReference) (operation : ArmorOperation) :
    Confined Form.record Form.caption (operation.apply target) := by
  refine ⟨fun left right same => ?_, fun store => ?_⟩
  · have resolves := Store.resolveTyped_of_skeleton (Store.skeleton_of_records same)
    simp only [apply, resolves, armorAt_of_records same]
    split
    · exact ⟨⟨rfl, rfl⟩, same⟩
    · split
      · exact ⟨⟨rfl, rfl⟩, same⟩
      · next edited _ =>
        have opened := Store.view_modify_of_view same
          (fun form => { form with record := .armor edited }) (fun _ => .armor edited)
          (fun _ => rfl) target
        exact ⟨⟨rfl, rfl⟩, opened⟩
  · rcases operation.apply_cases target store with
      ⟨failure, opened, refused⟩ | ⟨keywords, armor, edited, _, opened, _, applied⟩
    · rw [refused]
      rfl
    · rw [applied]
      refine Store.view_modify Form.caption fun form found => ?_
      obtain ⟨form', found', armored⟩ := armorAt_eq_ok.1 opened
      obtain rfl : form = form' := Option.some.inj (found.symm.trans found')
      simp only [Form.caption, armored]
      rfl

end ArmorOperation

/-- An armor patch looks at records and writes to them only. -/
theorem ArmorPatch.confined_apply (patch : ArmorPatch) :
    Confined Form.record Form.caption patch.apply := by
  have targets (left right : Store) (same : left.view Form.record = right.view Form.record) :
      patch.targets left = patch.targets right := by
    simp only [ArmorPatch.targets,
      Store.resolveTyped_of_skeleton (Store.skeleton_of_records same),
      Store.armorsWith_of_records same]
  rw [patch.apply_eq]
  exact .choice patch.targets _ targets (.ofFound fun found =>
    .forEach fun target _ => .forEach fun operation _ => operation.confined_apply target)

/-- A keyword patch looks at captions and writes to them only. -/
theorem KeywordPatch.confined_apply (patch : KeywordPatch) :
    Confined Form.caption Form.record patch.apply := by
  have targets (left right : Store) (same : left.view Form.caption = right.view Form.caption) :
      patch.target left = patch.target right := by
    have resolves := Store.resolveTyped_of_skeleton (Store.skeleton_of_captions same)
    unfold KeywordPatch.target
    split
    · exact resolves _ _
    · next text _ =>
      have found := Store.findKeyword_of_captions same text
      simp only [resolves]
      cases first : (left.ofType .keyword).find? fun entry => entry.2.isCalled text <;>
        cases first' : (right.ofType .keyword).find? fun entry => entry.2.isCalled text <;>
        simp_all
  rw [patch.apply_eq]
  refine .choice patch.target _ targets (.ofFound fun reference => ?_)
  refine ⟨fun left right same => ⟨⟨rfl, rfl⟩, ?_⟩, fun store => ?_⟩
  · exact Store.view_modify_of_view same
      (fun form => { form with editorId := some patch.editorId })
      (fun caption => (caption.1, some patch.editorId)) (fun _ => rfl) reference
  · exact Store.view_modify Form.record fun _ _ => rfl

/-- Applying a tree of armor patches looks at records and writes to them only. -/
theorem ArmorPatch.confined_applyAll (statements : List (Statement ArmorPatch)) :
    Confined Form.record Form.caption (applyAll ArmorPatch.apply statements) :=
  .statements (fun _ _ same => Store.host_of_skeleton (Store.skeleton_of_records same))
    ArmorPatch.confined_apply statements

/-- Applying a tree of keyword patches looks at captions and writes to them only. -/
theorem KeywordPatch.confined_applyAll (statements : List (Statement KeywordPatch)) :
    Confined Form.caption Form.record (applyAll KeywordPatch.apply statements) :=
  .statements (fun _ _ same => Store.host_of_skeleton (Store.skeleton_of_captions same))
    KeywordPatch.confined_apply statements

end FormPatch
