import FormPatch.Proofs.Store.Skeleton
import FormPatch.Proofs.Syntax.Values
import Mathlib.Data.List.Forall2

/-!
# What texts resolve to

A text names a form when it is the form's reference in writing and the form is live. Resolving a
text succeeds exactly when it names a form of the expected type. The text of a reference is read
back as the reference, unless the name of the plugin is empty.
-/

namespace FormPatch

namespace Failure

variable {α β : Type}

/-- The failure of an attempt, if it failed. -/
def of? : Except Failure α → Option Failure
  | .error failure => some failure
  | .ok _ => none

/-- The failure of an attempt is the one it ended with. -/
theorem of?_eq_some {attempt : Except Failure α} {failure : Failure} :
    of? attempt = some failure ↔ attempt = .error failure := by
  cases attempt <;> simp [of?]

/-- An attempt without a failure has come to a value. -/
theorem of?_eq_none {attempt : Except Failure α} :
    of? attempt = none ↔ ∃ value, attempt = .ok value := by
  cases attempt <;> simp [of?]

/-- Attempts in a row fail as the first one that fails, and where none does they succeed. -/
theorem of?_mapM (attempt : α → Except Failure β) (items : List α) :
    of? (items.mapM attempt) = items.findSome? fun item => of? (attempt item) := by
  induction items with
  | nil => rfl
  | cons item items ih =>
    rw [List.mapM_cons, List.findSome?_cons, ← ih]
    cases attempt item with
    | error failure => rfl
    | ok value => cases items.mapM attempt <;> rfl

/-- Attempts in a row succeed with the values of each. -/
theorem mapM_eq_ok {attempt : α → Except Failure β} {items : List α} {values : List β} :
    items.mapM attempt = .ok values ↔
      List.Forall₂ (fun item value => attempt item = .ok value) items values := by
  induction items generalizing values with
  | nil =>
    rw [List.mapM_nil, List.forall₂_nil_left_iff]
    exact ⟨fun same => (Except.ok.inj same).symm, fun same => same ▸ rfl⟩
  | cons item items ih =>
    rw [List.mapM_cons, bind_eq_ok, List.forall₂_cons_left_iff]
    constructor
    · rintro ⟨value, first, rest⟩
      obtain ⟨others, behind, same⟩ := bind_eq_ok.1 rest
      exact ⟨value, others, first, ih.1 behind, (Except.ok.inj same).symm⟩
    · rintro ⟨value, others, first, behind, rfl⟩
      exact ⟨value, first, bind_eq_ok.2 ⟨others, ih.2 behind, rfl⟩⟩

/-- Each value of attempts in a row is that of one of them. -/
theorem exists_of_mapM {attempt : α → Except Failure β} {items : List α} {values : List β}
    (succeeded : items.mapM attempt = .ok values) :
    ∀ value ∈ values, ∃ item ∈ items, attempt item = .ok value := by
  have related := mapM_eq_ok.1 succeeded
  clear succeeded
  induction related with
  | nil => exact fun _ member => nomatch member
  | cons first _ ih =>
    rw [List.forall_mem_cons]
    refine ⟨⟨_, List.mem_cons_self, first⟩, fun value member => ?_⟩
    obtain ⟨item, listed, same⟩ := ih value member
    exact ⟨item, List.mem_cons_of_mem _ listed, same⟩

end Failure

/-- A reference is read back from its text, unless the name of its plugin is empty. -/
theorem FormReference.parse?_text (reference : FormReference) :
    parse? reference.text = if reference.plugin = "" then none else some reference := by
  have run := Text.isHexRun_hexText reference.id.toNat
  have apart : '|' ∉ Text.hexText reference.id.toNat :=
    Text.not_mem_of_isHexRun run (by decide)
  have bare := Text.dropHexMark_of_isHexRun run
  have digits : Text.isHexNumber (String.ofList (Text.hexText reference.id.toNat)) = true := by
    rw [Text.isHexNumber, String.toList_ofList, bare, run]
  have spelled : reference.text =
      reference.plugin ++ ("|" ++ String.ofList (Text.hexText reference.id.toNat)) := by
    apply String.toList_inj.1
    simp [text, toString]
  have fits : reference.id.toNat < UInt32.size := reference.id.toNat_lt
  rw [parse?, spelled, Syntax.splitLastBar_append (by simpa using apart)]
  simp only [Option.bind_eq_bind, Option.bind_some, String.toList_ofList, bare,
    Text.valueOf_hexText, digits, fits]
  by_cases nameless : reference.plugin = "" <;> simp [nameless]

namespace Store

/-- Whether a text names the live form of a record type under a reference. -/
structure Names (store : Store) (text : String) (type : RecordType) (reference : FormReference) :
    Prop where
  /-- The text is the reference in writing. -/
  written : FormReference.parse? text = some reference
  /-- The plugin of the reference is active. -/
  active : store.isActive reference.plugin = true
  /-- The form under the reference has the type. -/
  found : ∃ form, store.get? reference = some form ∧ form.record.type = type

/-- A text names at most one reference. -/
theorem Names.unique {store : Store} {text : String} {type other : RecordType}
    {left right : FormReference} (first : store.Names text type left)
    (second : store.Names text other right) : left = right :=
  Option.some.inj (first.written.symm.trans second.written)

/-- A text resolves exactly to the live form whose reference it writes. -/
theorem resolve_eq_ok_iff {store : Store} {text : String} {reference : FormReference} :
    store.resolve text = .ok reference ↔
      FormReference.parse? text = some reference ∧ store.isLive reference = true := by
  rw [resolve, Failure.bind_eq_ok, FormReference.parse]
  cases FormReference.parse? text with
  | none => simp
  | some written =>
    simp only [Except.ok.injEq, exists_eq_left', Option.some.injEq]
    by_cases live : store.isLive written = true
    · rw [if_pos live]
      exact ⟨fun same => Except.ok.inj same ▸ ⟨rfl, live⟩, fun same => same.1 ▸ rfl⟩
    · rw [if_neg live]
      constructor
      · intro refused
        cases refused
      · intro named
        exact absurd (named.1 ▸ named.2) live

/-- A text resolves to a form of a type exactly when it names one. -/
theorem resolveTyped_eq_ok_iff {store : Store} {text : String} {type : RecordType}
    {reference : FormReference} :
    store.resolveTyped text type = .ok reference ↔ store.Names text type reference := by
  constructor
  · intro resolved
    obtain ⟨live, found⟩ := resolveTyped_eq_ok resolved
    obtain ⟨named, answered, typed⟩ := Failure.bind_eq_ok.1 resolved
    have same : named = reference := by
      split at typed
      · cases typed
      · split at typed
        · exact Except.ok.inj typed
        · cases typed
    exact ⟨(resolve_eq_ok_iff.1 (same ▸ answered)).1, isActive_of_isLive live, found⟩
  · rintro ⟨written, active, form, found, type⟩
    have live : store.isLive reference = true := by
      rw [isLive, active, OrderedMap.contains,
        show store.forms.get? reference = some form from found]
      rfl
    refine Failure.bind_eq_ok.2 ⟨reference, resolve_eq_ok_iff.2 ⟨written, live⟩, ?_⟩
    simp only [found, type, if_true]
    rfl

/-- What a text names depends on the skeleton of the store only. -/
theorem names_of_skeleton {left right : Store} (same : left.skeleton = right.skeleton)
    {text : String} {type : RecordType} {reference : FormReference} :
    left.Names text type reference ↔ right.Names text type reference := by
  rw [← resolveTyped_eq_ok_iff, ← resolveTyped_eq_ok_iff, resolveTyped_of_skeleton same]

end Store

end FormPatch
