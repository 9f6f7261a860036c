import FormPatch.Proofs.Application.Runs
import FormPatch.Proofs.Guard.Accepted
import FormPatch.Proofs.Statement.Parts

/-!
# Applying what is active

A tree is applied with each guard evaluated when it is reached; its active expressions are found
with all guards evaluated before the first patch. Patches keep what guards ask of a store, so both
come to the same: applying a tree is applying its active expressions one after the other.
-/

namespace FormPatch

variable {α : Type}

/-- A guard is well formed when it has a value for every host. -/
def Guard.IsWellFormed (guard : Guard) : Prop :=
  ∀ host : Host, ∃ value, guard.value? host = .ok value

/-- Tokens that a formula stands for are well formed. -/
theorem Guard.IsFormula.isWellFormed {guard : Guard} (complete : guard.IsFormula) :
    guard.IsWellFormed := by
  obtain ⟨formula, rfl⟩ := complete
  exact fun host => ⟨formula.value host, formula.value?_tokens host⟩

/-- A well-formed guard has nothing to report. -/
theorem Guard.IsWellFormed.reports {guard : Guard} (formed : guard.IsWellFormed) (host : Host) :
    (guard.evaluate host).2 = [] := by
  obtain ⟨value, same⟩ := formed host
  simp only [Guard.evaluate, same]

mutual

/-- Where all guards of a statement are well formed, nothing is reported on the way to its active
expressions. -/
theorem Statement.reports_active (host : Host) (statement : Statement α)
    (formed : ∀ guard ∈ statement.guards, guard.IsWellFormed) :
    (statement.active host).2 = [] := by
  cases statement with
  | expression payload => rfl
  | conditional guard body otherwise =>
    simp only [Statement.guards, List.forall_mem_cons, List.forall_mem_append] at formed
    obtain ⟨here, inside, behind⟩ := formed
    simp only [Statement.active, here.reports host, List.nil_append]
    split
    · exact activeAll_reports host body inside
    · exact Otherwise.reports_active host otherwise behind

/-- Where all guards of statements are well formed, nothing is reported on the way to their active
expressions. -/
theorem activeAll_reports (host : Host) (statements : List (Statement α))
    (formed : ∀ guard ∈ Statement.guardsAll statements, guard.IsWellFormed) :
    (activeAll host statements).2 = [] := by
  cases statements with
  | nil => rfl
  | cons statement rest =>
    simp only [Statement.guardsAll, List.forall_mem_append] at formed
    simp only [activeAll, Statement.reports_active host statement formed.1,
      activeAll_reports host rest formed.2, List.append_nil]

/-- Where all guards of a chain are well formed, nothing is reported on the way to its active
expressions. -/
theorem Otherwise.reports_active (host : Host) (otherwise : Otherwise α)
    (formed : ∀ guard ∈ otherwise.guards, guard.IsWellFormed) :
    (otherwise.active host).2 = [] := by
  cases otherwise with
  | nothing => rfl
  | block body => exact activeAll_reports host body formed
  | branch guard body otherwise =>
    simp only [Otherwise.guards, List.forall_mem_cons, List.forall_mem_append] at formed
    obtain ⟨here, inside, behind⟩ := formed
    simp only [Otherwise.active, here.reports host, List.nil_append]
    split
    · exact activeAll_reports host body inside
    · exact Otherwise.reports_active host otherwise behind

end

/-- Whether a run on a tree did what a run on a list of expressions did, and reported the same
unless guards had something to report. -/
structure Applied.Matches (guardReports : List Diagnostic) (tree flat : Applied) : Prop where
  /-- Both runs lead to one store. -/
  store : tree.store = flat.store
  /-- Both runs opened the same forms. -/
  opened : tree.opened = flat.opened
  /-- Both runs reported the same where no guard did. -/
  reports : guardReports = [] → tree.reports = flat.reports

namespace Applied.Matches

/-- What was done on a list is done on a tree that adds no reports of guards. -/
theorem refl (applied : Applied) : Matches [] applied applied := ⟨rfl, rfl, fun _ => rfl⟩

/-- Runs that match go on alike when what follows matches from the store that was reached. -/
theorem andThen {reports later : List Diagnostic} {tree flat : Applied}
    {next next' : Store → Applied} (first : Matches reports tree flat)
    (second : Matches later (next flat.store) (next' flat.store)) :
    Matches (reports ++ later) (tree.andThen next) (flat.andThen next') := by
  obtain ⟨store, opened, alike⟩ := first
  simp only [Applied.andThen, store]
  refine ⟨second.store, ?_, fun none => ?_⟩
  · simp only [opened, second.opened]
  · obtain ⟨here, behind⟩ := List.append_eq_nil_iff.1 none
    simp only [alike here, second.reports behind]

/-- What a guard reports stands in front of a run and changes nothing else. -/
theorem guarded {reports later : List Diagnostic} {store : Store} {next : Store → Applied}
    {flat : Applied} (behind : Matches later (next store) flat) :
    Matches (reports ++ later) ((⟨store, reports, []⟩ : Applied).andThen next) flat := by
  refine ⟨behind.store, behind.opened, fun none => ?_⟩
  obtain ⟨rfl, later⟩ := List.append_eq_nil_iff.1 none
  exact behind.reports later

end Applied.Matches

/-- Whether patches change no load order, no reference and no record type. -/
def KeepsSkeleton (patch : α → Store → Applied) : Prop :=
  ∀ payload store, (patch payload store).store.skeleton = store.skeleton

section Tree

variable {patch : α → Store → Applied}

/-- A run of patches that keep the skeleton keeps it. -/
theorem KeepsSkeleton.forEach (keeps : KeepsSkeleton patch) (payloads : List α) (store : Store) :
    (Applied.forEach payloads patch store).store.skeleton = store.skeleton :=
  Applied.forEach_keeps (motive := fun reached => reached.skeleton = store.skeleton)
    (fun payload _ reached same => (keeps payload reached).trans same) rfl

mutual

/-- Applying a statement matches applying its active expressions. -/
theorem Statement.apply_matches (keeps : KeepsSkeleton patch) (statement : Statement α)
    (store : Store) :
    Applied.Matches (statement.active store.host).2 (statement.apply patch store)
      (Applied.forEach (statement.active store.host).1 patch store) := by
  cases statement with
  | expression payload =>
    simp only [Statement.apply, Statement.active, Applied.forEach_singleton]
    exact .refl _
  | conditional guard body otherwise =>
    simp only [Statement.apply, Statement.active]
    split
    · exact .guarded (applyAll_matches keeps body store)
    · exact .guarded (Otherwise.apply_matches keeps otherwise store)

/-- Applying statements matches applying their active expressions. -/
theorem applyAll_matches (keeps : KeepsSkeleton patch) (statements : List (Statement α))
    (store : Store) :
    Applied.Matches (activeAll store.host statements).2 (applyAll patch statements store)
      (Applied.forEach (activeAll store.host statements).1 patch store) := by
  cases statements with
  | nil => exact .refl _
  | cons statement rest =>
    simp only [applyAll, activeAll, Applied.forEach_append]
    refine (Statement.apply_matches keeps statement store).andThen ?_
    -- The first statement is behind, but guards see the store that it found.
    have behind := applyAll_matches keeps rest
      (Applied.forEach (statement.active store.host).1 patch store).store
    rwa [Store.host_of_skeleton (keeps.forEach _ store)] at behind

/-- Applying a chain matches applying its active expressions. -/
theorem Otherwise.apply_matches (keeps : KeepsSkeleton patch) (otherwise : Otherwise α)
    (store : Store) :
    Applied.Matches (otherwise.active store.host).2 (otherwise.apply patch store)
      (Applied.forEach (otherwise.active store.host).1 patch store) := by
  cases otherwise with
  | nothing => exact .refl _
  | block body => exact applyAll_matches keeps body store
  | branch guard body otherwise =>
    simp only [Otherwise.apply, Otherwise.active]
    split
    · exact .guarded (applyAll_matches keeps body store)
    · exact .guarded (Otherwise.apply_matches keeps otherwise store)

end

/-- Applying a tree keeps the skeleton. -/
theorem KeepsSkeleton.applyAll (keeps : KeepsSkeleton patch) (statements : List (Statement α))
    (store : Store) : (applyAll patch statements store).store.skeleton = store.skeleton := by
  rw [(applyAll_matches keeps statements store).store]
  exact keeps.forEach _ store

end Tree

/-- What applying a tree comes to: the store is that of its active expressions applied in order, the
reports are theirs when every guard is well formed, and whichever patches have been applied, every
tree has the active expressions that it had before them. -/
structure AppliesActive (patch : α → Store → Applied) (statements : List (Statement α))
    (store : Store) : Prop where
  /-- The store is that of the active expressions applied one after the other. -/
  stores : (applyAll patch statements store).store =
    (Applied.forEach (activeAll store.host statements).1 patch store).store
  /-- Where every guard is well formed, finding the active expressions and applying them reports
  the same in the same order. -/
  reports : (∀ guard ∈ Statement.guardsAll statements, guard.IsWellFormed) →
    (applyAll patch statements store).reports =
      (activeAll store.host statements).2 ++
        (Applied.forEach (activeAll store.host statements).1 patch store).reports
  /-- No patch changes which blocks of a tree are active. -/
  later : ∀ (applied : List α) (behind : List (Statement α)),
    activeAll (Applied.forEach applied patch store).store.host behind = activeAll store.host behind

/-- Patches that keep the skeleton make applying a tree come to applying what is active in it. -/
theorem KeepsSkeleton.appliesActive {patch : α → Store → Applied} (keeps : KeepsSkeleton patch)
    (statements : List (Statement α)) (store : Store) : AppliesActive patch statements store where
  stores := (applyAll_matches keeps statements store).store
  reports formed := by
    have none := activeAll_reports store.host statements formed
    rw [none, List.nil_append]
    exact (applyAll_matches keeps statements store).reports none
  later applied behind := by
    rw [Store.host_of_skeleton (keeps.forEach applied store)]

/-- Armor patches keep the skeleton of a store. -/
theorem ArmorPatch.keepsSkeleton : KeepsSkeleton ArmorPatch.apply := ArmorPatch.skeleton_apply

/-- Keyword patches keep the skeleton of a store. -/
theorem KeywordPatch.keepsSkeleton : KeepsSkeleton KeywordPatch.apply :=
  KeywordPatch.skeleton_apply

/-- Applying any tree of either record type is applying its active expressions, found before the
first patch; guards with formulas behind them report nothing on the way. -/
theorem application_of_trees :
    (∀ (store : Store) (statements : List (Statement ArmorPatch)),
      AppliesActive ArmorPatch.apply statements store) ∧
    (∀ (store : Store) (statements : List (Statement KeywordPatch)),
      AppliesActive KeywordPatch.apply statements store) ∧
    ∀ guard : Guard, guard.IsFormula → guard.IsWellFormed :=
  ⟨fun store statements => ArmorPatch.keepsSkeleton.appliesActive statements store,
    fun store statements => KeywordPatch.keepsSkeleton.appliesActive statements store,
    fun _ complete => complete.isWellFormed⟩

end FormPatch
