import FormPatch.Loader
import FormPatch.Proofs.Text.Case
import Mathlib.Data.List.TakeDrop
import Mathlib.Data.List.TakeWhile

/-!
# Paths below a directory

A path that is taken from a directory by names has the components of the directory, and behind them
the names. So different names lead to different paths, whatever the text of the directory looks
like, and whether such a path carries an extension is to be seen from its last name.
-/

namespace FormPatch

namespace Path

/-- Whether a text can name what a directory holds. -/
structure IsName (name : String) : Prop where
  /-- A name is not empty. -/
  ne_empty : name ≠ ""
  /-- The directory itself is no name in it. -/
  ne_here : name ≠ "."
  /-- The directory above is no name in it. -/
  ne_parent : name ≠ ".."
  /-- No separator stands in a name. -/
  separator_notMem : '/' ∉ name.toList

instance (name : String) : Decidable (IsName name) :=
  decidable_of_iff (name ≠ "" ∧ name ≠ "." ∧ name ≠ ".." ∧ '/' ∉ name.toList)
    ⟨fun ⟨empty, here, parent, separator⟩ => ⟨empty, here, parent, separator⟩,
      fun name => ⟨name.1, name.2, name.3, name.4⟩⟩

/-! ## Runs between separators -/

/-- There is always a run, even between no separators. -/
theorem split_ne_nil (characters : List Char) : split characters ≠ [] := by
  cases characters with
  | nil => simp [split]
  | cons character rest =>
    rw [split]
    split
    · simp
    · split <;> simp

/-- A separator ends a run. -/
theorem split_separator (rest : List Char) : split ('/' :: rest) = [] :: split rest := by
  rw [split]
  split
  · next none => exact absurd none (split_ne_nil rest)
  · next runs => rw [if_pos rfl, runs]

/-- Any other character stands in front of the first run. -/
theorem split_cons {character : Char} (other : character ≠ '/') {rest run : List Char}
    {runs : List (List Char)} (found : split rest = run :: runs) :
    split (character :: rest) = (character :: run) :: runs := by
  rw [split, found]
  exact if_neg other

/-- What stands on both sides of a separator is split on its own. -/
theorem split_append (front rest : List Char) :
    split (front ++ '/' :: rest) = split front ++ split rest := by
  induction front with
  | nil => exact split_separator rest
  | cons character front hypothesis =>
    by_cases separator : character = '/'
    · subst separator
      rw [List.cons_append, split_separator, split_separator, hypothesis, List.cons_append]
    · obtain ⟨run, runs, found⟩ := List.exists_cons_of_ne_nil (split_ne_nil front)
      rw [found, List.cons_append] at hypothesis
      rw [List.cons_append, split_cons separator hypothesis, split_cons separator found,
        List.cons_append]

/-- Without a separator there is one run. -/
theorem split_eq_singleton {characters : List Char} (absent : '/' ∉ characters) :
    split characters = [characters] := by
  induction characters with
  | nil => rfl
  | cons character rest hypothesis =>
    rw [List.mem_cons, not_or] at absent
    obtain ⟨other, absent⟩ := absent
    exact split_cons (Ne.symm other) (hypothesis absent)

/-- Only the empty text is one empty run. -/
theorem eq_nil_of_split {characters : List Char} (found : split characters = [[]]) :
    characters = [] := by
  cases characters with
  | nil => rfl
  | cons character rest =>
    by_cases separator : character = '/'
    · subst separator
      rw [split_separator] at found
      exact absurd (List.cons.inj found).2 (split_ne_nil rest)
    · obtain ⟨run, runs, first⟩ := List.exists_cons_of_ne_nil (split_ne_nil rest)
      rw [split_cons separator first] at found
      cases found

/-- The component that runs start with, where the first one stands for the root or the working
directory. -/
def leading (runs : List (List Char)) : List Component :=
  if runs.head? = some [] ∧ 1 < runs.length then [.root]
  else if runs.head? = some ['.'] then [.here]
  else []

/-- The components of a path are what its first run and its other ones stand for. -/
theorem components_eq (path : Path) : path.components =
    leading (split path.text.toList) ++ (split path.text.toList).filterMap stepOf? := by
  rw [components, leading]
  generalize split path.text.toList = runs
  split
  · simp
  · simp
  · next noRoot noHere =>
    rcases runs with _ | ⟨run, _ | ⟨next, runs⟩⟩
    · rfl
    · have other : run ≠ ['.'] := by
        rintro rfl
        exact noHere [] rfl
      simp [other]
    · have filled : run ≠ [] := by
        rintro rfl
        exact noRoot next runs rfl
      have other : run ≠ ['.'] := by
        rintro rfl
        exact noHere (next :: runs) rfl
      simp [filled, other]

/-- What runs start with depends on the last one only when there is no other one. -/
theorem leading_append {front : List (List Char)} (ne_nil : front ≠ []) (left right : List Char) :
    leading (front ++ [left]) = leading (front ++ [right]) := by
  obtain ⟨run, runs, rfl⟩ := List.exists_cons_of_ne_nil ne_nil
  simp [leading]

/-- Behind the runs of a text, another run does not change what they start with. -/
theorem leading_split_append {characters : List Char} (filled : characters ≠ [])
    (run : List Char) : leading (split characters ++ [run]) = leading (split characters) := by
  have several : split characters ≠ [[]] := mt eq_nil_of_split filled
  obtain ⟨first, runs, found⟩ := List.exists_cons_of_ne_nil (split_ne_nil characters)
  rw [found] at several ⊢
  cases runs with
  | nil =>
    have ne_nil : first ≠ [] := fun empty => several (congrArg (fun run => [run]) empty)
    simp [leading, ne_nil]
  | cons next runs => simp [leading]

/-- The last run gives the last component, if any. -/
theorem components_of_split {path : Path} {front : List (List Char)} {run : List Char}
    (found : split path.text.toList = front ++ [run]) :
    path.components =
      leading (front ++ [run]) ++ (front.filterMap stepOf? ++ (stepOf? run).toList) := by
  rw [components_eq, found, List.filterMap_append]
  cases step : stepOf? run <;> simp [step]

/-! ## Names -/

/-- A name has no separator, so it is its own only run. -/
theorem IsName.split {name : String} (isName : IsName name) :
    Path.split name.toList = [name.toList] :=
  split_eq_singleton isName.separator_notMem

/-- A name is spelled in another way than what is no name. -/
theorem toList_ne {name text : String} (other : name ≠ text) : name.toList ≠ text.toList :=
  mt String.toList_inj.1 other

/-- A name stands for a component. -/
theorem IsName.stepOf? {name : String} (isName : IsName name) :
    Path.stepOf? name.toList = some (.name name) := by
  rw [Path.stepOf?.eq_def]
  split
  · next empty => exact absurd empty (toList_ne isName.ne_empty)
  · next here => exact absurd here (toList_ne isName.ne_here)
  · next parent => exact absurd parent (toList_ne isName.ne_parent)
  · rw [String.ofList_toList]

/-- A name does not stand for the root or the working directory. -/
theorem IsName.leading {name : String} (isName : IsName name) :
    Path.leading [name.toList] = [] := by
  have other : name.toList ≠ ['.'] := toList_ne isName.ne_here
  simp [Path.leading, other]

/-- No name starts at the root. -/
theorem IsName.isAbsolute {name : String} (isName : IsName name) :
    Path.isAbsolute ⟨name⟩ = false := by
  rw [Path.isAbsolute, beq_eq_false_iff_ne]
  exact fun first => isName.separator_notMem (List.mem_of_head? first)

/-- A name is taken from a directory by a component behind those of the directory. -/
theorem components_join (directory : Path) {name : String} (isName : IsName name) :
    (directory.join ⟨name⟩).components = directory.components ++ [.name name] := by
  rw [join, if_neg (by simp [isName.isAbsolute])]
  split
  · next last =>
    have empty : Path.split directory.text.toList = [] ++ [[]] := by
      rw [List.getLast?_eq_none_iff.1 last]
      rfl
    have alone : Path.split (⟨name⟩ : Path).text.toList = [] ++ [name.toList] := isName.split
    rw [components_of_split empty, components_of_split alone, isName.stepOf?,
      List.nil_append, isName.leading]
    rfl
  · next last =>
    obtain ⟨front, ends⟩ := List.getLast?_eq_some_iff.1 last
    have runs : split directory.text.toList = split front ++ [[]] := by
      rw [ends, split_append]
      rfl
    have joined : split (directory.text ++ name).toList = split front ++ [name.toList] := by
      rw [String.toList_append, ends, List.append_assoc, List.singleton_append, split_append,
        isName.split]
    rw [components_of_split runs, components_of_split joined, isName.stepOf?,
      leading_append (split_ne_nil front) name.toList []]
    simp [stepOf?]
  · next last _ found =>
    have filled : directory.text.toList ≠ [] := fun empty => by simp [empty] at found
    have joined : split (directory.text ++ "/" ++ name).toList =
        split directory.text.toList ++ [name.toList] := by
      rw [String.toList_append, String.toList_append, List.append_assoc, ← isName.split]
      exact split_append _ _
    rw [components_of_split joined, leading_split_append filled, isName.stepOf?, components_eq]
    simp

/-! ## Paths by names -/

/-- The path that is taken from a directory by one name after the other. -/
def below (directory : Path) (names : List String) : Path :=
  names.foldl (fun path name => path.join ⟨name⟩) directory

/-- No name leads no further. -/
@[simp] theorem below_nil (directory : Path) : directory.below [] = directory := rfl

/-- Names lead further one by one. -/
theorem below_cons (directory : Path) (name : String) (names : List String) :
    directory.below (name :: names) = (directory.join ⟨name⟩).below names := rfl

variable {directory left right : Path} {names others : List String}

/-- Behind the components of the directory stand the names. -/
theorem components_below (areNames : ∀ name ∈ names, IsName name) :
    (directory.below names).components = directory.components ++ names.map .name := by
  induction names generalizing directory with
  | nil => simp
  | cons name names hypothesis =>
    obtain ⟨isName, areNames⟩ := List.forall_mem_cons.1 areNames
    rw [below_cons, hypothesis areNames, components_join directory isName]
    simp

/-- Paths below a directory that have the same components have the same names. -/
theorem eq_of_components_below (areNames : ∀ name ∈ names, IsName name)
    (areOthers : ∀ name ∈ others, IsName name)
    (same : (directory.below names).components = (directory.below others).components) :
    names = others := by
  rw [components_below areNames, components_below areOthers] at same
  exact (List.map_inj_right fun _ _ => Component.name.inj).1 (List.append_cancel_left same)

/-! ## The order -/

instance : Std.LawfulEqOrd Component where
  eq_of_compare {left right} equal := by
    obtain ⟨ranks, labels⟩ := Ordering.then_eq_eq.1 equal
    rw [compareOn, Nat.compare_eq_eq] at ranks
    rw [compareOn, Std.compare_eq_iff_eq] at labels
    cases left <;> cases right <;>
      first
      | rfl
      | exact congrArg Component.name labels
      | cases ranks

/-- Paths are at the same place in the order when they have the same components. -/
theorem order_eq_iff : left.order right = .eq ↔ left.components = right.components :=
  Std.compare_eq_iff_eq

instance : Std.TransCmp order := inferInstanceAs (Std.TransCmp (compareOn components))

/-- The order of paths is the other way round when they trade places. -/
theorem order_swap (left right : Path) : right.order left = (left.order right).swap :=
  Std.OrientedCmp.eq_swap

/-- Whether a path does not come behind another one, as the search sorts its files. -/
theorem order_ne_gt_iff : (left.order right != .gt) = true ↔ (left.order right).isLE = true := by
  cases left.order right <;> decide

/-- A path that does not come behind another one does not come behind those that follow. -/
theorem not_gt_trans {middle : Path} (first : (left.order middle != .gt) = true)
    (second : (middle.order right != .gt) = true) : (left.order right != .gt) = true := by
  rw [order_ne_gt_iff] at first second ⊢
  exact Std.TransCmp.isLE_trans first second

/-- Of two paths one does not come behind the other. -/
theorem not_gt_total (left right : Path) :
    ((left.order right != .gt) || (right.order left != .gt)) = true := by
  rw [order_swap left right]
  cases left.order right <;> rfl

/-! ## Extensions -/

/-- Whether a name consists of something, a dot, and what matches an extension and has no dot. -/
def HasExtension (extension name : String) : Prop :=
  ∃ stem suffix, name = stem ++ "." ++ suffix ∧ stem ≠ "" ∧ '.' ∉ suffix.toList ∧
    List.Forall₂ Text.Matches extension.toList suffix.toList

/-- The last name is the file name. -/
theorem fileName?_below {last : String} (areNames : ∀ name ∈ names ++ [last], IsName name) :
    (directory.below (names ++ [last])).fileName? = some last := by
  rw [fileName?, components_below areNames, List.map_append, ← List.append_assoc]
  simp

/-- The extension is what stands behind the last dot of a file name, if something stands in front of
that dot. -/
theorem extension?_eq_some_iff {path : Path} {name suffix : String}
    (found : path.fileName? = some name) :
    path.extension? = some suffix ↔
      ∃ stem, name = stem ++ "." ++ suffix ∧ stem ≠ "" ∧ '.' ∉ suffix.toList := by
  simp only [extension?, found, List.span_eq_takeWhile_dropWhile, Option.bind_eq_bind,
    Option.bind_some]
  constructor
  · intro cut
    split at cut
    · next after character front both =>
      obtain ⟨taken, dropped⟩ := Prod.mk.inj both
      cases cut
      have whole : after ++ '.' :: character :: front = name.toList.reverse := by
        rw [← taken, ← dropped, List.takeWhile_append_dropWhile]
      refine ⟨String.ofList (character :: front).reverse, ?_, ?_, ?_⟩
      · rw [← String.toList_inj, ← List.reverse_inj, ← whole]
        simp
      · simp
      · intro dot
        rw [String.toList_ofList, List.mem_reverse, ← taken] at dot
        simpa using List.mem_takeWhile_imp dot
    · cases cut
  · rintro ⟨stem, rfl, filled, absent⟩
    obtain ⟨character, front, reversed⟩ :=
      List.exists_cons_of_ne_nil (mt List.reverse_eq_nil_iff.1 (mt String.toList_eq_nil_iff.1 filled))
    have whole : (stem ++ "." ++ suffix).toList.reverse =
        suffix.toList.reverse ++ '.' :: character :: front := by
      simp [← reversed]
    have others : ∀ item ∈ suffix.toList.reverse, (item != '.') = true := by
      intro item member
      rw [bne_iff_ne]
      rintro rfl
      exact absent (List.mem_reverse.1 member)
    rw [whole, List.takeWhile_append_of_pos others, List.dropWhile_append_of_pos others]
    simp

end Path

namespace Loader

variable (loader : Loader) {directory : Path} {names : List String} {last : String}

/-- A path is accepted when its last name has the extension. -/
theorem accepts_below (areNames : ∀ name ∈ names ++ [last], Path.IsName name) :
    loader.accepts (directory.below (names ++ [last])) = true ↔
      Path.HasExtension loader.extension last := by
  have fileName : (directory.below (names ++ [last])).fileName? = some last :=
    Path.fileName?_below areNames
  rw [accepts, Option.any_eq_true]
  constructor
  · rintro ⟨suffix, found, agrees⟩
    obtain ⟨stem, spelled, filled, absent⟩ := (Path.extension?_eq_some_iff fileName).1 found
    exact ⟨stem, suffix, spelled, filled, absent, Text.agree_iff_matches.1 agrees⟩
  · rintro ⟨stem, suffix, spelled, filled, absent, each⟩
    exact ⟨suffix, (Path.extension?_eq_some_iff fileName).2 ⟨stem, spelled, filled, absent⟩,
      Text.agree_iff_matches.2 each⟩

end Loader

end FormPatch
