import FormPatch.Edition
import FormPatch.Proofs.Page.Removal

/-!
# Editions and the keys on their pages

The entries of a store are held twice: as an ordered map, which tells what the store holds, and on
pages, which tell two editions of one history apart. Each edit changes both.

Main statement: an edition whose pages are sound and list the keys of its store in order is still
one after every edit, and a store that is loaded starts with such pages.
-/

namespace FormPatch

open Std

namespace OrderedMap

variable {κ ν : Type} [Ord κ]

/-- The keys of a map in order. -/
def keys (map : OrderedMap κ ν) : List κ := map.entries.map Prod.fst

/-- The keys of a map ascend. -/
theorem ascends_keys (map : OrderedMap κ ν) : Page.Ascends map.keys :=
  List.pairwise_map.2 map.ascending

/-- The key of an erased entry is left out. -/
theorem keys_erase (map : OrderedMap κ ν) (key : κ) :
    (map.erase key).keys = Page.without key map.keys := by
  simp [keys, erase, Page.without, List.filter_map, Function.comp_def]

/-- Changing a value leaves the keys. -/
theorem keys_modify (map : OrderedMap κ ν) (key : κ) (change : ν → ν) :
    (map.modify key change).keys = map.keys := by
  rw [keys, modify, List.map_map]
  refine List.map_congr_left fun entry _ => ?_
  simp only [Function.comp_apply]
  split <;> rfl

variable [TransOrd κ]

/-- An entry among ascending ones puts its key among theirs. -/
theorem map_fst_place {key : κ} {value : ν} {entries : List (κ × ν)}
    (ascending : entries.Pairwise fun left right => compare left.1 right.1 = .lt) :
    (place key value entries).map Prod.fst = Page.put key (entries.map Prod.fst) := by
  induction entries with
  | nil => rfl
  | cons first rest ih =>
    obtain ⟨above, others⟩ := List.pairwise_cons.1 ascending
    have greater : ∀ known ∈ rest.map Prod.fst, compare first.1 known = .lt := by simpa using above
    unfold place
    split
    · next less =>
      have lies : Page.LiesBetween [] key (first.1 :: rest.map Prod.fst) :=
        ⟨by simp, List.forall_mem_cons.2 ⟨less, fun known member =>
          TransCmp.lt_trans less (greater known member)⟩⟩
      exact lies.put_new.symm
    · next same =>
      have lies : Page.LiesBetween [] key (rest.map Prod.fst) :=
        ⟨by simp, fun known member => TransCmp.lt_of_eq_of_lt same (greater known member)⟩
      exact (lies.put_same (OrientedCmp.eq_symm same)).symm
    · next more =>
      have lies : Page.LiesBetween [first.1] key [] :=
        ⟨by simpa using OrientedCmp.gt_iff_lt.1 more, by simp⟩
      have later := lies.put_append (rest.map Prod.fst)
      rw [List.append_nil, List.append_nil, ← ih others] at later
      exact later.symm

/-- The key of an inserted entry comes in its place. -/
theorem keys_insert (map : OrderedMap κ ν) (key : κ) (value : ν) :
    (map.insert key value).keys = Page.put key map.keys :=
  map_fst_place map.ascending

end OrderedMap

namespace Pages

variable {κ : Type} [Ord κ] [TransOrd κ]

/-- Ascending keys that are put in one after the other come behind those that were there. -/
theorem foldl_insert {edit : Nat} {keys : List κ} {pages : Pages κ} (sound : pages.IsSound)
    (ascends : Page.Ascends (pages.keys ++ keys)) :
    (keys.foldl (fun pages key => pages.insert edit key) pages).IsSound ∧
      (keys.foldl (fun pages key => pages.insert edit key) pages).keys = pages.keys ++ keys := by
  induction keys generalizing pages with
  | nil => exact ⟨sound, (List.append_nil _).symm⟩
  | cons key keys ih =>
    obtain ⟨front, -, smaller⟩ := List.pairwise_append.1 ascends
    have lies : Page.LiesBetween pages.keys key [] :=
      ⟨fun known member => smaller known member key List.mem_cons_self, by simp⟩
    obtain ⟨still, placed⟩ := insert_spec sound front edit key
    have atEnd := lies.put_new
    rw [List.append_nil] at atEnd
    rw [List.append_cons, ← atEnd, ← placed] at ascends ⊢
    exact ih still ascends

/-- Ascending keys lie soundly on the pages that are made of them. -/
theorem ofKeys_spec (edit : Nat) {keys : List κ} (ascends : Page.Ascends keys) :
    (ofKeys edit keys).IsSound ∧ (ofKeys edit keys).keys = keys :=
  foldl_insert isSound_empty ascends

end Pages

namespace Edition

/-- Whether the pages of an edition are sound and list the keys of its store. -/
structure IsPaged (edition : Edition) : Prop where
  /-- The pages are sound. -/
  sound : edition.pages.IsSound
  /-- They list the keys. -/
  keys : edition.pages.keys = edition.store.forms.keys

variable {edition : Edition}

/-- A store that is loaded has its keys on new pages. -/
theorem isPaged_reload (edition : Edition) (store : Store) : (edition.reload store).IsPaged :=
  have made := Pages.ofKeys_spec (edition.edits + 1) store.forms.ascends_keys
  ⟨made.1, made.2⟩

/-- The keys on the pages of an edition ascend. -/
theorem IsPaged.ascends (paged : edition.IsPaged) : Page.Ascends edition.pages.keys :=
  paged.keys ▸ edition.store.forms.ascends_keys

/-- Putting a form in puts its key on the pages. -/
theorem IsPaged.insert (paged : edition.IsPaged) (reference : FormReference) (form : Form) :
    (edition.insert reference form).IsPaged := by
  obtain ⟨sound, keys⟩ := Pages.insert_spec paged.sound paged.ascends (edition.edits + 1) reference
  refine ⟨sound, keys.trans ?_⟩
  rw [paged.keys]
  exact (OrderedMap.keys_insert edition.store.forms reference form).symm

/-- Taking a form out takes its key off the pages. -/
theorem IsPaged.erase (paged : edition.IsPaged) (reference : FormReference) :
    (edition.erase reference).IsPaged := by
  obtain ⟨sound, keys⟩ := Pages.erase_spec paged.sound paged.ascends (edition.edits + 1) reference
  refine ⟨sound, keys.trans ?_⟩
  rw [paged.keys]
  exact (OrderedMap.keys_erase edition.store.forms reference).symm

/-- Changing a form in place leaves the keys on the pages. -/
theorem IsPaged.modify (paged : edition.IsPaged) (reference : FormReference)
    (change : Form → Form) : (edition.modify reference change).IsPaged where
  sound := paged.sound.visit (edition.edits + 1) reference
  keys := by
    have kept := OrderedMap.keys_modify edition.store.forms reference change
    exact (Pages.keys_visit edition.pages _ reference).trans (paged.keys.trans kept.symm)

end Edition

end FormPatch
