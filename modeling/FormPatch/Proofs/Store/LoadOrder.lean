import FormPatch.PatchFile
import FormPatch.Proofs.Application.Active
import FormPatch.Proofs.Snapshot.RoundTrip
import FormPatch.Proofs.Store.Histories
import Mathlib.Tactic.IntervalCases

/-!
# The load order

Plugins are activated and deactivated under any spelling of their names, while forms are edited,
files are applied and the store is written to a snapshot and read again. A name stands behind such
steps when it was activated and was not deactivated since. The first activation of a name that does
not stand opens it: it decides how the plugin is spelled and where it stands.

Main statement: behind every run that starts without plugins, no plugin is active twice, the names
that stand are active, and the load order lists those openings that no deactivation follows, in
order. Snapshots are read back as they were written as long as all lengths fit the format.
-/

namespace FormPatch

namespace Text

/-- Whether two names are the same up to the case of ASCII letters. -/
def IsVariant (left right : String) : Prop :=
  List.Forall₂ Matches left.toList right.toList

/-- Two names are variants exactly when they fold alike. -/
theorem isVariant_iff {left right : String} : IsVariant left right ↔ fold left = fold right := by
  rw [IsVariant, ← agree_iff_matches, agree_iff]

namespace IsVariant

variable {left middle right : String}

/-- A name is a variant of itself. -/
theorem refl (name : String) : IsVariant name name :=
  isVariant_iff.2 rfl

/-- Being a variant goes both ways. -/
theorem symm (same : IsVariant left right) : IsVariant right left :=
  isVariant_iff.2 (isVariant_iff.1 same).symm

/-- A variant of a variant is a variant. -/
theorem trans (first : IsVariant left middle) (second : IsVariant middle right) :
    IsVariant left right :=
  isVariant_iff.2 ((isVariant_iff.1 first).trans (isVariant_iff.1 second))

end IsVariant

end Text

/-- A file leaves the load order alone. -/
theorem PatchFile.plugins_apply (file : PatchFile) (store : Store) :
    (file.apply store).store.plugins = store.plugins := by
  have skeleton : (file.apply store).store.skeleton = store.skeleton := by
    cases file with
    | armor statements => exact ArmorPatch.keepsSkeleton.applyAll statements store
    | keyword statements => exact KeywordPatch.keepsSkeleton.applyAll statements store
  exact congrArg Prod.fst skeleton

namespace Store

/-- A step in the life of a store. -/
inductive Step where
  /-- A plugin is activated. -/
  | activate (plugin : String)
  /-- A plugin is deactivated. -/
  | deactivate (plugin : String)
  /-- A form is put in, taken out or changed in place. -/
  | edit (edit : Edit)
  /-- A file is applied. -/
  | patch (file : PatchFile)
  /-- The store is written to a snapshot and read again. -/
  | reload

namespace Step

/-- The store behind a step, if there is one. -/
def run : Step → Store → Except Snapshot.Fault Store
  | activate plugin, store => .ok (store.activate plugin)
  | deactivate plugin, store => .ok (store.deactivate plugin)
  | edit change, store => .ok (change.run store)
  | patch file, store => .ok (file.apply store).store
  | reload, store => Snapshot.decode (Snapshot.encode store)

/-- Whether a step activates a plugin under some variant of a name. -/
def Activates (name : String) : Step → Prop
  | activate plugin => Text.IsVariant name plugin
  | _ => False

/-- Whether a step deactivates a plugin under some variant of a name. -/
def Deactivates (name : String) : Step → Prop
  | deactivate plugin => Text.IsVariant name plugin
  | _ => False

/-- Variants of a name are deactivated at once. -/
theorem deactivates_congr {left right : String} (same : Text.IsVariant left right) (step : Step) :
    step.Deactivates left ↔ step.Deactivates right := by
  cases step with
  | deactivate plugin => exact ⟨fun found => same.symm.trans found, fun found => same.trans found⟩
  | _ => exact Iff.rfl

end Step

/-- The store behind steps, if each of them leaves one. -/
def follow (store : Store) (steps : List Step) : Except Snapshot.Fault Store :=
  steps.foldlM (fun store step => step.run store) store

/-- Whether each store that steps write to a snapshot has only lengths that can be written. -/
def WritesStorable (store : Store) (steps : List Step) : Prop :=
  ∀ (place : Nat) (written : Store), steps[place]? = some .reload →
    store.follow (steps.take place) = .ok written → written.IsStorable

/-- Whether a name stands behind steps: some variant of it was activated, and none was deactivated
since. -/
def Stands (steps : List Step) (name : String) : Prop :=
  ∃ front step behind, steps = front ++ step :: behind ∧ step.Activates name ∧
    ∀ later ∈ behind, ¬ later.Deactivates name

/-- Whether an activation is the first one of its plugin since the last deactivation of it. -/
structure Opens (steps : List Step) (place : Nat) (plugin : String) : Prop where
  /-- The plugin is activated there, in this spelling. -/
  made : steps[place]? = some (.activate plugin)
  /-- No variant of it is deactivated behind. -/
  lasting : ∀ later ∈ steps.drop (place + 1), ¬ later.Deactivates plugin
  /-- Each variant that was activated in front was deactivated since. -/
  first : ¬ Stands (steps.take place) plugin

/-- No name stands behind an empty history. -/
theorem stands_nil (name : String) : ¬ Stands [] name := by
  rintro ⟨front, step, behind, split, -⟩
  simp at split

/-- Behind one more step, a name stands that the step activates, or that stood already and that the
step does not deactivate. -/
theorem stands_append {steps : List Step} {step : Step} {name : String} :
    Stands (steps ++ [step]) name ↔
      step.Activates name ∨ Stands steps name ∧ ¬ step.Deactivates name := by
  constructor
  · rintro ⟨front, activation, behind, split, activates, lasting⟩
    rcases List.eq_nil_or_concat behind with rfl | ⟨others, last, rfl⟩
    · obtain ⟨rfl, same⟩ := List.append_inj' split rfl
      obtain rfl := List.singleton_inj.1 same
      exact .inl activates
    · rw [List.concat_eq_append, ← List.cons_append, ← List.append_assoc] at split
      obtain ⟨rfl, same⟩ := List.append_inj' split rfl
      obtain rfl := List.singleton_inj.1 same
      simp only [List.concat_eq_append, List.forall_mem_append, List.forall_mem_singleton]
        at lasting
      exact .inr ⟨⟨front, activation, others, rfl, activates, lasting.1⟩, lasting.2⟩
  · rintro (activates | ⟨⟨front, activation, behind, rfl, activates, lasting⟩, kept⟩)
    · exact ⟨steps, step, [], rfl, activates, by simp⟩
    · refine ⟨front, activation, behind ++ [step], by simp, activates, ?_⟩
      rw [List.forall_mem_append, List.forall_mem_singleton]
      exact ⟨lasting, kept⟩

/-- Behind one more step, an activation opens a plugin that did so already and that the step does
not deactivate, or it is that step. -/
theorem opens_append {steps : List Step} {step : Step} {place : Nat} {plugin : String} :
    Opens (steps ++ [step]) place plugin ↔
      Opens steps place plugin ∧ ¬ step.Deactivates plugin ∨
        place = steps.length ∧ step = .activate plugin ∧ ¬ Stands steps plugin := by
  rcases Nat.lt_trichotomy place steps.length with front | rfl | beyond
  · have made : (steps ++ [step])[place]? = steps[place]? := List.getElem?_append_left front
    have behind : (steps ++ [step]).drop (place + 1) = steps.drop (place + 1) ++ [step] :=
      List.drop_append_of_le_length front
    have before : (steps ++ [step]).take place = steps.take place :=
      List.take_append_of_le_length (Nat.le_of_lt front)
    constructor
    · rintro ⟨activated, lasting, first⟩
      rw [behind, List.forall_mem_append, List.forall_mem_singleton] at lasting
      exact .inl ⟨⟨made ▸ activated, lasting.1, before ▸ first⟩, lasting.2⟩
    · rintro (⟨⟨activated, lasting, first⟩, kept⟩ | ⟨rfl, -⟩)
      · refine ⟨made.trans activated, ?_, before ▸ first⟩
        rw [behind, List.forall_mem_append, List.forall_mem_singleton]
        exact ⟨lasting, kept⟩
      · exact absurd front (Nat.lt_irrefl _)
  · have before : (steps ++ [step]).take steps.length = steps := List.take_left
    constructor
    · rintro ⟨activated, -, first⟩
      rw [List.getElem?_concat_length, Option.some.injEq] at activated
      exact .inr ⟨rfl, activated, before ▸ first⟩
    · rintro (⟨⟨activated, -, -⟩, -⟩ | ⟨-, rfl, first⟩)
      · simp at activated
      · exact ⟨List.getElem?_concat_length, by simp, before.symm ▸ first⟩
  · have none : (steps ++ [step])[place]? = none :=
      List.getElem?_eq_none (by simpa using beyond)
    constructor
    · rintro ⟨activated, -, -⟩
      simp [none] at activated
    · rintro (⟨⟨activated, -, -⟩, -⟩ | ⟨rfl, -⟩)
      · simp [List.getElem?_eq_none (Nat.le_of_lt beyond)] at activated
      · exact absurd beyond (Nat.lt_irrefl _)

/-- An activation that opens a plugin is one of the steps. -/
theorem Opens.place_lt {steps : List Step} {place : Nat} {plugin : String}
    (opens : Opens steps place plugin) : place < steps.length :=
  (List.getElem?_eq_some_iff.1 opens.made).1

/-- Names are active that are variants of a name in the load order. -/
theorem isActive_iff {store : Store} {name : String} :
    store.isActive name = true ↔ ∃ plugin ∈ store.plugins, Text.IsVariant name plugin := by
  simp only [isActive, List.any_eq_true, Text.agree_iff, Text.isVariant_iff]

/-- What a load order is behind steps: no name is listed in two variants, the names that stand are
active, and the plugins are those that steps open, in the order of these steps. -/
structure IsOrdered (steps : List Step) (store : Store) : Prop where
  /-- No two plugins are variants of one name. -/
  apart : store.plugins.Pairwise fun left right => ¬ Text.IsVariant left right
  /-- A name is active when it stands. -/
  active : ∀ name, store.isActive name = true ↔ Stands steps name
  /-- The plugins are listed as they were opened. -/
  opened : ∃ openings : List (Nat × String), store.plugins = openings.map Prod.snd ∧
    (openings.Pairwise fun left right => left.1 < right.1) ∧
    ∀ place plugin, (place, plugin) ∈ openings ↔ Opens steps place plugin

namespace IsOrdered

/-- Before the first step no plugin is active. -/
theorem empty : IsOrdered [] .empty where
  apart := .nil
  active name := by
    refine iff_of_false ?_ (stands_nil name)
    rw [isActive_iff]
    rintro ⟨plugin, member, -⟩
    exact absurd member List.not_mem_nil
  opened := by
    refine ⟨[], rfl, .nil, fun place plugin => ?_⟩
    refine iff_of_false List.not_mem_nil fun opens => ?_
    simpa using opens.made

variable {steps : List Step} {store after : Store}

/-- Steps that neither activate nor deactivate leave the load order. -/
theorem kept (ordered : IsOrdered steps store) {step : Step}
    (plugins : after.plugins = store.plugins) (activates : ∀ name, ¬ step.Activates name)
    (deactivates : ∀ name, ¬ step.Deactivates name) : IsOrdered (steps ++ [step]) after where
  apart := plugins ▸ ordered.apart
  active name := by
    rw [stands_append, isActive_iff, plugins, ← isActive_iff, ordered.active name]
    simp [activates, deactivates]
  opened := by
    obtain ⟨openings, listed, ascending, opens⟩ := ordered.opened
    refine ⟨openings, plugins.trans listed, ascending, fun place plugin => ?_⟩
    have other : step ≠ .activate plugin := by
      rintro rfl
      exact activates plugin (Text.IsVariant.refl plugin)
    simp [opens_append, opens, deactivates, other]

/-- Activating a plugin that stands already opens nothing. -/
theorem activate_again (ordered : IsOrdered steps store) {plugin : String}
    (active : store.isActive plugin = true) : IsOrdered (steps ++ [.activate plugin]) store where
  apart := ordered.apart
  active name := by
    rw [stands_append, ← ordered.active]
    constructor
    · intro stood
      exact .inr ⟨stood, id⟩
    · rintro (variant | ⟨stood, -⟩)
      · obtain ⟨found, member, same⟩ := isActive_iff.1 active
        exact isActive_iff.2 ⟨found, member, Text.IsVariant.trans variant same⟩
      · exact stood
  opened := by
    obtain ⟨openings, listed, ascending, opens⟩ := ordered.opened
    have standing := (ordered.active plugin).1 active
    refine ⟨openings, listed, ascending, fun place other => ?_⟩
    rw [opens_append, opens]
    constructor
    · intro opened
      exact .inl ⟨opened, id⟩
    · rintro (⟨opened, -⟩ | ⟨-, same, fresh⟩)
      · exact opened
      · cases same
        exact absurd standing fresh

/-- Activating any other plugin opens it, and lists it last. -/
theorem activate_first (ordered : IsOrdered steps store) {plugin : String}
    (inactive : ¬ store.isActive plugin = true) :
    IsOrdered (steps ++ [.activate plugin])
      { store with plugins := store.plugins ++ [plugin] } where
  apart := by
    refine List.pairwise_append.2 ⟨ordered.apart, List.pairwise_singleton _ _, ?_⟩
    intro found member other last variant
    obtain rfl := List.mem_singleton.1 last
    exact inactive (isActive_iff.2 ⟨found, member, variant.symm⟩)
  active name := by
    have quiet : ¬ (Step.activate plugin).Deactivates name := id
    rw [stands_append, ← ordered.active, isActive_iff, isActive_iff]
    simp [List.mem_append, or_and_right, exists_or, quiet, Step.Activates, or_comm]
  opened := by
    obtain ⟨openings, listed, ascending, opens⟩ := ordered.opened
    have fresh : ¬ Stands steps plugin := mt (ordered.active plugin).2 inactive
    refine ⟨openings ++ [(steps.length, plugin)], ?_, ?_, fun place other => ?_⟩
    · simp [listed]
    · refine List.pairwise_append.2 ⟨ascending, List.pairwise_singleton _ _, ?_⟩
      intro opening member last same
      obtain rfl := List.mem_singleton.1 same
      exact ((opens opening.1 opening.2).1 member).place_lt
    · have quiet : ¬ (Step.activate plugin).Deactivates other := id
      rw [List.mem_append, opens, opens_append]
      simp only [quiet, not_false_eq_true, and_true, List.mem_singleton, Prod.mk.injEq,
        Step.activate.injEq]
      refine or_congr_right ⟨?_, ?_⟩
      · rintro ⟨rfl, rfl⟩
        exact ⟨rfl, rfl, fresh⟩
      · rintro ⟨rfl, rfl, -⟩
        exact ⟨rfl, rfl⟩

/-- Activating a plugin opens it where it does not stand. -/
theorem activate (ordered : IsOrdered steps store) (plugin : String) :
    IsOrdered (steps ++ [.activate plugin]) (store.activate plugin) := by
  rw [Store.activate]
  split
  case isTrue active => exact ordered.activate_again active
  case isFalse inactive => exact ordered.activate_first inactive

/-- Deactivating a name takes its variants out, and the others keep their order. -/
theorem deactivate (ordered : IsOrdered steps store) (plugin : String) :
    IsOrdered (steps ++ [.deactivate plugin]) (store.deactivate plugin) := by
  have left (found : String) : (!Text.agree plugin found) = true ↔
      ¬ (Step.deactivate plugin).Deactivates found := by
    rw [Bool.not_eq_true', ← Bool.not_eq_true, Text.agree_iff, Step.Deactivates,
      Text.isVariant_iff, eq_comm]
  obtain ⟨openings, listed, ascending, opens⟩ := ordered.opened
  refine ⟨ordered.apart.filter _, fun name => ?_,
    openings.filter fun opening => !Text.agree plugin opening.2, ?_, ascending.filter _,
    fun place found => ?_⟩
  · rw [stands_append, ← ordered.active, isActive_iff, isActive_iff]
    simp only [Store.deactivate, List.mem_filter, left]
    constructor
    · rintro ⟨found, ⟨member, kept⟩, variant⟩
      exact .inr ⟨⟨found, member, variant⟩, mt (Step.deactivates_congr variant _).1 kept⟩
    · rintro (activates | ⟨⟨found, member, variant⟩, kept⟩)
      · exact absurd activates id
      · exact ⟨found, ⟨member, mt (Step.deactivates_congr variant _).2 kept⟩, variant⟩
  · rw [Store.deactivate, listed, List.filter_map]
    rfl
  · rw [List.mem_filter, opens, left, opens_append]
    simp

/-- A step from an ordered store leads to an ordered store. -/
theorem step (ordered : IsOrdered steps store) (step : Step)
    (storable : step = .reload → store.IsStorable) :
    ∃ after, step.run store = .ok after ∧ IsOrdered (steps ++ [step]) after := by
  cases step with
  | activate plugin => exact ⟨_, rfl, ordered.activate plugin⟩
  | deactivate plugin => exact ⟨_, rfl, ordered.deactivate plugin⟩
  | edit change =>
    have plugins : (change.run store).plugins = store.plugins := by cases change <;> rfl
    exact ⟨_, rfl, ordered.kept plugins (fun _ => id) fun _ => id⟩
  | patch file =>
    exact ⟨_, rfl, ordered.kept (file.plugins_apply store) (fun _ => id) fun _ => id⟩
  | reload =>
    have again := Snapshot.decode_encode (storable rfl) []
    rw [List.append_nil] at again
    exact ⟨store, again, ordered.kept rfl (fun _ => id) fun _ => id⟩

end IsOrdered

/-- What is written in front of a last step is written by all of them. -/
theorem WritesStorable.front {store : Store} {steps : List Step} {step : Step}
    (storable : store.WritesStorable (steps ++ [step])) : store.WritesStorable steps := by
  intro place written reload reached
  obtain ⟨within, -⟩ := List.getElem?_eq_some_iff.1 reload
  refine storable place written ?_ ?_
  · rwa [List.getElem?_append_left within]
  · rwa [List.take_append_of_le_length (Nat.le_of_lt within)]

/-- Every run ends, in an ordered store. -/
theorem isOrdered_follow (steps : List Step) (storable : empty.WritesStorable steps) :
    ∃ store, empty.follow steps = .ok store ∧ IsOrdered steps store := by
  induction steps using List.reverseRecOn with
  | nil => exact ⟨empty, rfl, .empty⟩
  | append_singleton steps step ih =>
    obtain ⟨store, reached, ordered⟩ := ih storable.front
    have last : step = .reload → store.IsStorable := by
      rintro rfl
      refine storable steps.length store List.getElem?_concat_length ?_
      rwa [List.take_left]
    obtain ⟨after, ran, behind⟩ := ordered.step step last
    refine ⟨after, ?_, behind⟩
    rw [follow] at reached
    rw [follow, List.foldlM_append, reached]
    change step.run store >>= pure = .ok after
    rw [ran]
    rfl

end Store

/-- Behind every run of activations, deactivations, edits of forms, files and reloads that starts
from a store without plugins, there is a store, and its load order is what the run says: no two
plugins are variants of one name, exactly the names are active that were activated under some
variant and deactivated under none since, and the plugins are listed in the order, and in the
spelling, of the first activation since their last deactivation. What is written to a snapshot on
the way has to have lengths that fit it. -/
theorem loadOrder_of_histories (steps : List Store.Step)
    (storable : Store.empty.WritesStorable steps) :
    ∃ store, Store.empty.follow steps = .ok store ∧ Store.IsOrdered steps store :=
  Store.isOrdered_follow steps storable

/-- A run in which a plugin is taken out under one spelling, comes back under another one, and is
activated again under a third one behind a snapshot. -/
def Store.respelling : List Store.Step :=
  [.activate "A.esp", .activate "B.esp", .edit (.insert ⟨"a.esp", 1⟩ ⟨none, .keyword⟩),
    .deactivate "a.ESP", .activate "a.esp", .reload, .activate "A.ESP"]

/-- The run leaves the second plugin in front of the first one. -/
theorem loadOrder_of_respelling :
    Store.empty.WritesStorable Store.respelling ∧
      ∃ store, Store.empty.follow Store.respelling = .ok store ∧
        Store.IsOrdered Store.respelling store := by
  have storable : Store.empty.WritesStorable Store.respelling := by
    intro place written reload reached
    have within : place < 7 := (List.getElem?_eq_some_iff.1 reload).1
    obtain rfl : place = 5 := by
      interval_cases place <;> simp [Store.respelling] at reload ⊢
    have evaluated : Store.empty.follow (Store.respelling.take 5) =
        .ok ⟨["B.esp", "a.esp"], .insert .empty ⟨"a.esp", 1⟩ ⟨none, .keyword⟩⟩ := by
      rfl
    rw [evaluated] at reached
    cases reached
    exact
      { count := by decide
        plugins := by decide
        size := by decide
        forms := by
          intro entry member
          obtain rfl := List.mem_singleton.1 member
          exact ⟨by decide, ⟨nofun, trivial⟩⟩ }
  exact ⟨storable, loadOrder_of_histories Store.respelling storable⟩

end FormPatch
