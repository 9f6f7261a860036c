import FormPatch.Keyword.Patch
import FormPatch.Proofs.Store.Resolution

/-!
# Keywords found by their editor ID

A filter that gives an editor ID finds a keyword in two stages: the first keyword that has the
editor ID is looked for among all keywords, and then the text of its reference has to resolve. Main
statement: the filter finds the first live keyword with the editor ID exactly when no other keyword
with it comes before that one and the plugin's name is not empty.
-/

namespace FormPatch

/-- Whether an entry of a store is a keyword with an editor ID, up to the case of letters. -/
def IsKeywordCalled (text : String) (entry : FormReference × Form) : Prop :=
  entry.2.record.type = .keyword ∧ entry.2.isCalled text = true

instance (text : String) (entry : FormReference × Form) : Decidable (IsKeywordCalled text entry) :=
  inferInstanceAs (Decidable (_ ∧ _))

namespace Store

/-- Whether a reference is the first one, in key order, whose entry has a property. -/
def First (store : Store) (holds : FormReference × Form → Prop) (reference : FormReference) :
    Prop :=
  ∃ front form behind, store.forms.entries = front ++ (reference, form) :: behind ∧
    holds (reference, form) ∧ ∀ entry ∈ front, ¬holds entry

/-- Whether an entry is a live keyword with an editor ID. -/
def IsLiveKeyword (store : Store) (text : String) (entry : FormReference × Form) : Prop :=
  IsKeywordCalled text entry ∧ store.isActive entry.1.plugin = true

instance (store : Store) (text : String) (entry : FormReference × Form) :
    Decidable (store.IsLiveKeyword text entry) :=
  inferInstanceAs (Decidable (_ ∧ _))

/-- Whether filters that give an editor ID find the first live keyword that has it, and fail when
there is none. -/
def FindsLive (store : Store) (text : String) : Prop :=
  ∀ editorId reference, (⟨.editorId text, editorId⟩ : KeywordPatch).target store = .ok reference ↔
    store.First (store.IsLiveKeyword text) reference

/-- What is looked for among the keywords is the first one with the editor ID. -/
theorem find?_ofType_eq_some_iff {store : Store} {text : String}
    {entry : FormReference × Form} :
    ((store.ofType .keyword).find? fun entry => entry.2.isCalled text) = some entry ↔
      ∃ front behind, store.forms.entries = front ++ entry :: behind ∧
        IsKeywordCalled text entry ∧ ∀ other ∈ front, ¬IsKeywordCalled text other := by
  simp only [ofType, List.find?_filter, List.find?_eq_some_iff_append, IsKeywordCalled,
    beq_iff_eq, Bool.not_eq_true', decide_eq_true_eq, decide_eq_false_iff_not]
  constructor
  · rintro ⟨called, front, behind, split, none⟩
    exact ⟨front, behind, split, called, none⟩
  · rintro ⟨front, behind, split, called, none⟩
    exact ⟨called, front, behind, split, none⟩

/-- The text of a form's reference resolves to it when the form is live, has the expected type and
the plugin has a name. -/
theorem names_text_iff {store : Store} {type : RecordType} {reference other : FormReference}
    {form : Form} (found : store.get? reference = some form) (typed : form.record.type = type) :
    store.Names reference.text type other ↔
      reference = other ∧ store.isActive reference.plugin = true ∧ reference.plugin ≠ "" := by
  have written := reference.parse?_text
  constructor
  · intro named
    have read := named.written
    rw [written] at read
    split at read
    · cases read
    · next nonempty =>
      obtain rfl := Option.some.inj read
      exact ⟨rfl, named.active, nonempty⟩
  · rintro ⟨rfl, active, nonempty⟩
    rw [if_neg nonempty] at written
    exact ⟨written, active, form, found, typed⟩

end Store

/-- A filter that gives an editor ID finds the first keyword with it, provided that its plugin is
active and has a name. -/
theorem KeywordPatch.target_eq_ok_iff {store : Store} {text editorId : String}
    {reference : FormReference} :
    (⟨.editorId text, editorId⟩ : KeywordPatch).target store = .ok reference ↔
      store.First (IsKeywordCalled text) reference ∧
        store.isActive reference.plugin = true ∧ reference.plugin ≠ "" := by
  have listed {front behind : List (FormReference × Form)} {entry : FormReference × Form}
      (split : store.forms.entries = front ++ entry :: behind) :
      store.get? entry.1 = some entry.2 :=
    store.forms.get?_of_mem (split ▸ List.mem_append_right front List.mem_cons_self)
      Std.ReflCmp.compare_self
  constructor
  · intro found
    unfold target at found
    simp only at found
    split at found
    · cases found
    · next first form looked =>
      obtain ⟨front, behind, split, called, none⟩ := Store.find?_ofType_eq_some_iff.1 looked
      obtain ⟨rfl, active, nonempty⟩ := (Store.names_text_iff (listed split) called.1).1
        (Store.resolveTyped_eq_ok_iff.1 found)
      exact ⟨⟨front, form, behind, split, called, none⟩, active, nonempty⟩
  · rintro ⟨⟨front, form, behind, split, called, none⟩, active, nonempty⟩
    have looked := Store.find?_ofType_eq_some_iff.2 ⟨front, behind, split, called, none⟩
    have named := (Store.names_text_iff (listed split) called.1).2 ⟨rfl, active, nonempty⟩
    simp only [target, looked]
    exact Store.resolveTyped_eq_ok_iff.2 named

/-- What filters that give an editor ID find: the first keyword that has it, when its plugin is
active and has a name, and nothing otherwise. This is the first live one exactly when no other
keyword with the editor ID comes before it and its plugin has a name. -/
theorem lookup_of_editorIds (store : Store) (text : String) :
    (∀ editorId reference,
      (⟨.editorId text, editorId⟩ : KeywordPatch).target store = .ok reference ↔
        store.First (IsKeywordCalled text) reference ∧
          store.isActive reference.plugin = true ∧ reference.plugin ≠ "") ∧
    (store.FindsLive text ↔ ∀ reference, store.First (store.IsLiveKeyword text) reference →
      store.First (IsKeywordCalled text) reference ∧ reference.plugin ≠ "") := by
  refine ⟨fun _ _ => KeywordPatch.target_eq_ok_iff, fun finds reference first => ?_,
    fun leads editorId reference => ?_⟩
  · obtain ⟨called, _, nonempty⟩ := KeywordPatch.target_eq_ok_iff.1 ((finds "" reference).2 first)
    exact ⟨called, nonempty⟩
  · rw [KeywordPatch.target_eq_ok_iff]
    constructor
    · rintro ⟨⟨front, form, behind, split, called, none⟩, active, _⟩
      exact ⟨front, form, behind, split, ⟨called, active⟩,
        fun entry member live => none entry member live.1⟩
    · intro first
      obtain ⟨called, nonempty⟩ := leads reference first
      obtain ⟨_, _, _, _, live, _⟩ := first
      exact ⟨called, live.2, nonempty⟩

/-- Two keywords with one editor ID, of which only the second one is live. -/
def dormantNamesake : Store :=
  ⟨["Skyrim.esm"], .ofList
    [(⟨"Off.esp", 2⟩, ⟨some "Shared", .keyword⟩), (⟨"Skyrim.esm", 1⟩, ⟨some "Shared", .keyword⟩)]⟩

/-- The live keyword is not found behind the one whose plugin is not active. -/
theorem dormantNamesake_hides_live : ¬dormantNamesake.FindsLive "Shared" := by
  intro finds
  have first : dormantNamesake.First (dormantNamesake.IsLiveKeyword "Shared") ⟨"Skyrim.esm", 1⟩ :=
    ⟨[(⟨"Off.esp", 2⟩, ⟨some "Shared", .keyword⟩)], ⟨some "Shared", .keyword⟩, [],
      by decide +kernel, by decide +kernel, by decide +kernel⟩
  have found := (finds "New" ⟨"Skyrim.esm", 1⟩).2 first
  have refused : (⟨.editorId "Shared", "New"⟩ : KeywordPatch).target dormantNamesake =
      .error (.unknownForm "Off.esp|2") := by
    decide +kernel
  cases refused.symm.trans found

end FormPatch
