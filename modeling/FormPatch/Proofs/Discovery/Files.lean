import FormPatch.Proofs.Discovery.Trees
import Mathlib.Data.List.Nodup

/-!
# The files that are found

The search of a directory meets each entry at or below it once. So where all directories can be
opened it finds exactly the files, and the links to files, whose names have the extension: at any
depth, once each, in the order of their components. Links to directories are not followed, and the
order in which directories hold their entries makes no difference.
-/

namespace FormPatch

namespace Loader

variable {loader : Loader} {tree : FileTree} {path directory : Path} {entry : Entry}
  {entries : List (String × Entry)}

/-- Whether names lead from an entry under one path to a file under another path, or to a link to
one, that is accepted. -/
def Seeks (loader : Loader) (tree : FileTree) (path : Path) (entry : Entry) (found : Path) : Prop :=
  ∃ names leaf, found = path.below names ∧ entry.at? names = some leaf ∧ tree.Shows found leaf ∧
    loader.accepts found = true

/-- What the search of an entry comes to: nothing is reported, and what is sought is found once. -/
structure Collects (loader : Loader) (tree : FileTree) (path : Path) (entry : Entry)
    (discovery : Discovery) : Prop where
  /-- Nothing is reported. -/
  reports : discovery.reports = []
  /-- Nothing is found twice. -/
  nodup : discovery.files.Nodup
  /-- What is sought is found, and nothing else. -/
  mem_iff : ∀ found, found ∈ discovery.files ↔ loader.Seeks tree path entry found

/-- The search of a directory is that of all that it holds. -/
theorem filesIn_eq (loader : Loader) (tree : FileTree) (directory : Path)
    (entries : List (String × Entry)) :
    loader.filesIn tree directory entries =
      ⟨entries.flatMap fun child =>
          (loader.filesAt tree (directory.join ⟨child.1⟩) child.2).files,
        entries.flatMap fun child =>
          (loader.filesAt tree (directory.join ⟨child.1⟩) child.2).reports⟩ := by
  induction entries with
  | nil => rw [filesIn]; rfl
  | cons child rest hypothesis =>
    rw [filesIn, hypothesis]
    rfl

/-- What is sought in a directory is sought at or below one of the entries that it holds. -/
theorem seeks_directory (nodup : (entries.map Prod.fst).Nodup) (found : Path) :
    loader.Seeks tree directory (.directory entries) found ↔
      ∃ child ∈ entries, loader.Seeks tree (directory.join ⟨child.1⟩) child.2 found := by
  constructor
  · rintro ⟨names, leaf, rfl, leads, shows, accepted⟩
    cases names with
    | nil =>
      rw [Entry.at?_nil] at leads
      cases leads
      exact shows.elim
    | cons name names =>
      obtain ⟨child, held, leads⟩ := (Entry.at?_cons_eq_some_iff nodup).1 leads
      exact ⟨(name, child), held, names, leaf, rfl, leads, shows, accepted⟩
  · rintro ⟨⟨name, child⟩, held, names, leaf, rfl, leads, shows, accepted⟩
    exact ⟨name :: names, leaf, rfl, (Entry.at?_cons_eq_some_iff nodup).2 ⟨child, held, leads⟩,
      shows, accepted⟩

/-- What is sought at or below two entries of a directory stands for one of them. -/
theorem eq_of_seeks (proper : (Entry.directory entries).IsProper) {left right : String × Entry}
    (holdsLeft : left ∈ entries) (holdsRight : right ∈ entries) {found : Path}
    (seeksLeft : loader.Seeks tree (directory.join ⟨left.1⟩) left.2 found)
    (seeksRight : loader.Seeks tree (directory.join ⟨right.1⟩) right.2 found) :
    left.1 = right.1 := by
  obtain ⟨names, leaf, rfl, leads, -, -⟩ := seeksLeft
  obtain ⟨others, other, same, turns, -, -⟩ := seeksRight
  have nodup := proper.areNamed.nodup
  have areNames : ∀ name ∈ left.1 :: names, Path.IsName name :=
    proper.areNames ((Entry.at?_cons_eq_some_iff nodup).2 ⟨left.2, holdsLeft, leads⟩)
  have areOthers : ∀ name ∈ right.1 :: others, Path.IsName name :=
    proper.areNames ((Entry.at?_cons_eq_some_iff nodup).2 ⟨right.2, holdsRight, turns⟩)
  exact (List.cons.inj (Path.eq_of_components_below areNames areOthers
    (congrArg Path.components same))).1

/-- A search collects what is behind a directory when it collects what is behind all that the
directory holds. -/
theorem collects_filesIn (proper : (Entry.directory entries).IsProper)
    (each : ∀ child ∈ entries, loader.Collects tree (directory.join ⟨child.1⟩) child.2
      (loader.filesAt tree (directory.join ⟨child.1⟩) child.2)) :
    loader.Collects tree directory (.directory entries) (loader.filesIn tree directory entries) := by
  rw [filesIn_eq]
  refine ⟨?_, ?_, fun found => ?_⟩
  · exact List.flatMap_eq_nil_iff.2 fun child held => (each child held).reports
  · refine List.nodup_flatMap.2 ⟨fun child held => (each child held).nodup, ?_⟩
    refine List.Pairwise.imp_of_mem ?_ (List.pairwise_map.1 proper.areNamed.nodup)
    intro left right holdsLeft holdsRight apart found inLeft inRight
    exact apart (eq_of_seeks proper holdsLeft holdsRight
      (((each left holdsLeft).mem_iff found).1 inLeft)
      (((each right holdsRight).mem_iff found).1 inRight))
  · rw [List.mem_flatMap, seeks_directory proper.areNamed.nodup]
    exact exists_congr fun child => and_congr_right fun held => (each child held).mem_iff found

/-- The search of an entry that holds no other ones takes its path, or nothing. -/
theorem collects_leaf {leaf : Entry} (alone : ∀ name names, leaf.at? (name :: names) = none)
    {taken : Bool} (takes : taken = true ↔ tree.Shows path leaf ∧ loader.accepts path = true) :
    loader.Collects tree path leaf { files := if taken then [path] else [] } := by
  refine ⟨rfl, by cases taken <;> simp, fun found => ?_⟩
  have member : found ∈ (if taken then [path] else []) ↔ found = path ∧ taken = true := by
    cases taken <;> simp
  rw [member, takes]
  constructor
  · rintro ⟨rfl, shows, accepted⟩
    exact ⟨[], leaf, rfl, Entry.at?_nil leaf, shows, accepted⟩
  · rintro ⟨_ | ⟨name, names⟩, other, rfl, leads, shows, accepted⟩
    · rw [Entry.at?_nil] at leads
      cases leads
      exact ⟨rfl, shows, accepted⟩
    · rw [alone] at leads
      cases leads

/-- The search of an entry collects what is at or below it. -/
theorem collects_filesAt (loader : Loader) (proper : entry.IsProper)
    (admits : tree.Admits path entry) :
    loader.Collects tree path entry (loader.filesAt tree path entry) := by
  induction entry generalizing path with
  | file content =>
    rw [filesAt]
    exact collects_leaf (fun _ _ => rfl) (by simp [FileTree.Shows])
  | link target =>
    rw [filesAt]
    refine collects_leaf (fun _ _ => rfl) ?_
    rw [Bool.and_eq_true, FileTree.isFile_iff]
    rfl
  | directory entries hypothesis =>
    obtain ⟨⟨opened, opens⟩, admits⟩ :=
      (FileTree.admits_directory_iff proper.areNamed.nodup).1 admits
    rw [filesAt, opens]
    exact collects_filesIn proper fun child held =>
      hypothesis child held (proper.held held) (admits child held)

end Loader

/-! ## The order -/

namespace Discovery

variable {discovery : Discovery}

/-- Sorting a search keeps its files. -/
theorem perm_sorted (discovery : Discovery) : discovery.sorted.files.Perm discovery.files :=
  List.mergeSort_perm discovery.files _

/-- Files stand in strict order behind sorting when no two of them have the same components. -/
theorem ascends_sorted (nodup : discovery.files.Nodup)
    (apart : ∀ left ∈ discovery.files, ∀ right ∈ discovery.files,
      left.components = right.components → left = right) :
    discovery.sorted.files.Pairwise fun left right => left.order right = .lt := by
  have sorted : discovery.sorted.files.Pairwise fun left right =>
      (left.order right != .gt) = true :=
    @List.pairwise_mergeSort _ (fun left right => left.order right != .gt)
      (fun _ _ _ => Path.not_gt_trans) Path.not_gt_total discovery.files
  have distinct : discovery.sorted.files.Nodup := discovery.perm_sorted.nodup_iff.2 nodup
  have member (path : Path) : path ∈ discovery.sorted.files ↔ path ∈ discovery.files :=
    discovery.perm_sorted.mem_iff
  refine List.Pairwise.imp_of_mem ?_ (sorted.and distinct)
  rintro left right holdsLeft holdsRight ⟨notAfter, different⟩
  cases found : left.order right with
  | lt => rfl
  | eq =>
    exact absurd (apart left ((member left).1 holdsLeft) right ((member right).1 holdsRight)
      (Path.order_eq_iff.1 found)) different
  | gt => simp [found] at notAfter

end Discovery

namespace Loader

variable {loader : Loader} {tree left right : FileTree} {directory : Path}

/-- Whether names lead from a directory, through directories only, to a file under a path, or to a
link to one, and the last name has the extension. -/
def Lists (loader : Loader) (tree : FileTree) (directory found : Path) : Prop :=
  ∃ names last leaf, found = directory.below (names ++ [last]) ∧
    tree.reach? directory (names ++ [last]) = some leaf ∧ tree.Shows found leaf ∧
    Path.HasExtension loader.extension last

/-- What a search in a directory comes to: nothing is reported, and what the tree lists is found in
order. -/
structure Enumerates (loader : Loader) (tree : FileTree) (directory : Path)
    (discovery : Discovery) : Prop where
  /-- Nothing is reported. -/
  reports : discovery.reports = []
  /-- Each file comes in front of those behind it. -/
  ascends : discovery.files.Pairwise fun left right => left.order right = .lt
  /-- What the tree lists is found, and nothing else. -/
  mem_iff : ∀ found, found ∈ discovery.files ↔ loader.Lists tree directory found

/-- Trees that agree list the same. -/
theorem Lists.agrees {found : Path} (lists : loader.Lists left directory found)
    (agrees : left.Agrees right) : loader.Lists right directory found := by
  obtain ⟨names, last, leaf, rfl, leads, shows, extended⟩ := lists
  obtain ⟨other, turns, face⟩ := agrees.reach? leads
  exact ⟨names, last, other, rfl, turns, agrees.shows face shows, extended⟩

/-- Nothing is found twice. -/
theorem Enumerates.nodup {discovery : Discovery}
    (searched : loader.Enumerates tree directory discovery) : discovery.files.Nodup := by
  refine searched.ascends.imp fun {left right} before same => ?_
  subst same
  rw [Path.order_eq_iff.2 rfl] at before
  cases before

/-- Searches in trees that agree come to the same. -/
theorem Enumerates.unique {first second : Discovery} (agrees : left.Agrees right)
    (searched : loader.Enumerates left directory first)
    (again : loader.Enumerates right directory second) : first = second := by
  have members : first.files.Perm second.files := by
    refine (List.perm_ext_iff_of_nodup searched.nodup again.nodup).2
      fun found => ?_
    rw [searched.mem_iff, again.mem_iff]
    exact ⟨fun lists => lists.agrees agrees, fun lists => lists.agrees agrees.symm⟩
  have files : first.files = second.files := by
    refine List.Perm.eq_of_pairwise (fun left right _ _ before after => ?_)
      searched.ascends again.ascends members
    rw [Path.order_swap left right, before] at after
    cases after
  obtain ⟨found, reports⟩ := first
  obtain ⟨others, reportsAgain⟩ := second
  cases files
  cases searched.reports
  cases again.reports
  rfl

/-- What is sought below an opened directory is what the tree lists. -/
theorem seeks_iff_lists {entries : List (String × Entry)}
    (proper : (Entry.directory entries).IsProper)
    (opened : tree.open? directory = .ok (.directory entries)) (found : Path) :
    loader.Seeks tree directory (.directory entries) found ↔
      loader.Lists tree directory found := by
  have reached := FileTree.reach?_of_open opened
  constructor
  · rintro ⟨names, leaf, rfl, leads, shows, accepted⟩
    obtain rfl | ⟨front, last, rfl⟩ := List.eq_nil_or_concat names
    · rw [Entry.at?_nil] at leads
      cases leads
      exact shows.elim
    · rw [List.concat_eq_append] at leads shows accepted ⊢
      exact ⟨front, last, leaf, rfl, (reached _).trans leads, shows,
        (loader.accepts_below (proper.areNames leads)).1 accepted⟩
  · rintro ⟨front, last, leaf, rfl, leads, shows, extended⟩
    rw [reached] at leads
    exact ⟨front ++ [last], leaf, rfl, leads, shows,
      (loader.accepts_below (proper.areNames leads)).2 extended⟩

/-- Where no directory is opened, the tree lists nothing. -/
theorem not_lists {found : Path}
    (missing : ∀ entries, tree.open? directory ≠ .ok (.directory entries)) :
    ¬ loader.Lists tree directory found := by
  rintro ⟨front, last, leaf, -, leads, -⟩
  rw [FileTree.reach?] at leads
  split at leads
  · next entry opened =>
    cases entry with
    | file content => cases front <;> cases leads
    | link target => cases front <;> cases leads
    | directory entries => exact missing entries opened
  · cases leads

/-- Where no directory is opened, the search comes to nothing. -/
theorem discover_of_missing {type : RecordType}
    (missing : ∀ entries, tree.open? (loader.recordDirectory type) ≠ .ok (.directory entries)) :
    loader.discover tree type = {} := by
  have nothing : tree.list (loader.recordDirectory type) = [] := by
    rw [FileTree.list]
    split
    · next entries opened => exact absurd opened (missing entries)
    · rfl
  rw [discover, nothing, filesIn]
  simp [Discovery.sorted]

/-- Where a directory is opened, the search is that of what was opened, sorted. -/
theorem discover_of_open {type : RecordType} {entries : List (String × Entry)}
    (opened : tree.open? (loader.recordDirectory type) = .ok (.directory entries)) :
    loader.discover tree type =
      (loader.filesAt tree (loader.recordDirectory type) (.directory entries)).sorted := by
  have held : tree.list (loader.recordDirectory type) = entries := by
    rw [FileTree.list, opened]
  rw [discover, held, filesAt, opened]

/-- The search of a record type's directory finds what the tree lists, in order. -/
theorem enumerates_discover (loader : Loader) (type : RecordType) (proper : tree.IsProper)
    (readable : tree.IsReadable (loader.recordDirectory type)) :
    loader.Enumerates tree (loader.recordDirectory type) (loader.discover tree type) := by
  by_cases directory : ∃ entries,
    tree.open? (loader.recordDirectory type) = .ok (.directory entries)
  · obtain ⟨entries, opened⟩ := directory
    obtain ⟨place, -, stands⟩ := FileTree.open?_eq_ok_iff.1 opened
    have whole : (Entry.directory entries).IsProper := proper.at? stands
    have collects :=
      collects_filesAt loader whole ((FileTree.isReadable_iff_admits opened).1 readable)
    rw [discover_of_open opened]
    refine ⟨collects.reports, Discovery.ascends_sorted collects.nodup ?_, fun found => ?_⟩
    · intro left holdsLeft right holdsRight same
      obtain ⟨names, leaf, rfl, leads, -, -⟩ := (collects.mem_iff left).1 holdsLeft
      obtain ⟨others, other, rfl, turns, -, -⟩ := (collects.mem_iff right).1 holdsRight
      rw [Path.eq_of_components_below (whole.areNames leads) (whole.areNames turns) same]
    · rw [(Discovery.perm_sorted _).mem_iff, collects.mem_iff, seeks_iff_lists whole opened]
  · have missing := not_exists.1 directory
    rw [discover_of_missing missing]
    exact ⟨rfl, .nil, fun found => iff_of_false List.not_mem_nil (not_lists missing)⟩

end Loader

/-- The search for the files of a record type reports nothing where all directories can be opened.
It finds the files and the links to files that names lead to through directories and whose names
have the extension, without repetition and in the order of their components, whatever the order in
which directories hold what is in them. Where there is no directory there are no files. -/
theorem discovery_of_files (loader : Loader) (type : RecordType) :
    (∀ tree : FileTree,
      (∀ entries, tree.open? (loader.recordDirectory type) ≠ .ok (.directory entries)) →
      (loader.discover tree type).files = [] ∧ (loader.discover tree type).reports = []) ∧
    ∀ tree : FileTree, tree.IsProper → tree.IsReadable (loader.recordDirectory type) →
      (loader.discover tree type).reports = [] ∧
      (loader.discover tree type).files.Nodup ∧
      ((loader.discover tree type).files.Pairwise fun left right => left.order right = .lt) ∧
      (∀ found, found ∈ (loader.discover tree type).files ↔
        loader.Lists tree (loader.recordDirectory type) found) ∧
      ∀ other : FileTree, other.IsProper → tree.Agrees other →
        loader.discover other type = loader.discover tree type := by
  refine ⟨fun tree missing => ?_, fun tree proper readable => ?_⟩
  · rw [Loader.discover_of_missing missing]
    exact ⟨rfl, rfl⟩
  · have searched := loader.enumerates_discover type proper readable
    refine ⟨searched.reports, searched.nodup, searched.ascends, searched.mem_iff,
      fun other proper agrees => ?_⟩
    have again := loader.enumerates_discover type proper (agrees.isReadable readable)
    exact (searched.unique agrees again).symm

namespace FileTree

/-- A tree whose directory of armors holds entries. -/
def ofArmors (entries : List (String × Entry)) : FileTree :=
  ⟨.directory [("Data", .directory [("formcfg", .directory [("Armor", .directory entries)])])], []⟩

/-- A file beside a directory, a link to that file and a link to the directory of them all. -/
def nestedArmors : List (String × Entry) :=
  [("z.cfg", .file []), ("sub", .directory [("one.CFG", .file []), ("readme.txt", .file [])]),
    ("loop", .link ⟨"../Armor"⟩), ("b.cfg", .link ⟨"z.cfg"⟩)]

/-- The tree is proper when its directory of armors is. -/
theorem isProper_ofArmors {entries : List (String × Entry)}
    (proper : (Entry.directory entries).IsProper) : (ofArmors entries).IsProper := by
  have alone (name : String) (isName : Path.IsName name) {entry : Entry}
      (proper : entry.IsProper) : (Entry.directory [(name, entry)]).IsProper :=
    Entry.isProper_directory_iff.2 ⟨⟨List.nodup_singleton name, by simpa using isName⟩,
      by simpa using proper⟩
  exact alone "Data" (by decide) (alone "formcfg" (by decide) (alone "Armor" (by decide) proper))

/-- The tree is proper in whatever order the directory of armors holds its entries. -/
theorem isProper_nestedArmors {entries : List (String × Entry)} (areNamed : Entry.AreNamed entries)
    (perm : entries.Perm nestedArmors) : (ofArmors entries).IsProper := by
  refine isProper_ofArmors (Entry.isProper_directory_iff.2 ⟨areNamed, fun child held => ?_⟩)
  have files : (Entry.directory [("one.CFG", .file []), ("readme.txt", .file [])]).IsProper :=
    Entry.isProper_directory_iff.2 ⟨by decide, by simp [Entry.isProper_file]⟩
  rw [perm.mem_iff, nestedArmors] at held
  simp only [List.mem_cons, List.not_mem_nil, or_false] at held
  obtain rfl | rfl | rfl | rfl := held
  · exact Entry.isProper_file _
  · exact files
  · exact Entry.isProper_link _
  · exact Entry.isProper_link _

/-- Its directory of armors is where a session searches for them. -/
theorem open?_ofArmors (entries : List (String × Entry)) :
    (ofArmors entries).open? ⟨"Data/formcfg/Armor"⟩ = .ok (.directory entries) := by
  refine open?_of_walk ["Data", "formcfg", "Armor"] ["Data", "formcfg", "Armor"]
    (by decide) (by decide) (by decide) (by decide) ?_
  simp +decide [walk, startOf, ofArmors, Entry.at?]

/-- The order in which the directory of armors holds its entries makes no difference to names. -/
theorem agrees_ofArmors {entries others : List (String × Entry)}
    (nodup : (entries.map Prod.fst).Nodup) (perm : entries.Perm others) :
    (ofArmors entries).Agrees (ofArmors others) := by
  have alone (name : String) {left right : Entry}
      (same : ∀ names, (left.at? names).map Entry.face = (right.at? names).map Entry.face) :
      ∀ names, ((Entry.directory [(name, left)]).at? names).map Entry.face =
        ((Entry.directory [(name, right)]).at? names).map Entry.face
    | [] => rfl
    | first :: names => by
      rw [Entry.at?, Entry.at?, List.lookup_cons, List.lookup_cons]
      cases first == name with
      | true => exact same names
      | false => rfl
  have same : ∀ names, ((Entry.directory entries).at? names).map Entry.face =
      ((Entry.directory others).at? names).map Entry.face
    | [] => rfl
    | first :: names => by rw [Entry.at?, Entry.at?, Entry.lookup_perm nodup perm]
  exact ⟨rfl, alone "Data" (alone "formcfg" (alone "Armor" same))⟩

/-- Both directories can be opened. -/
theorem isReadable_nestedArmors :
    (ofArmors nestedArmors).IsReadable ⟨"Data/formcfg/Armor"⟩ := by
  have opened : (ofArmors nestedArmors).open? ⟨"Data/formcfg/Armor/sub"⟩ =
      .ok (.directory [("one.CFG", .file []), ("readme.txt", .file [])]) := by
    refine open?_of_walk ["Data", "formcfg", "Armor", "sub"] ["Data", "formcfg", "Armor", "sub"]
      (by decide) (by decide) (by decide) (by decide) ?_
    simp +decide [walk, startOf, ofArmors, Entry.at?, nestedArmors, List.lookup_cons]
  have joined : (⟨"Data/formcfg/Armor"⟩ : Path).join ⟨"sub"⟩ = ⟨"Data/formcfg/Armor/sub"⟩ := by
    decide
  rw [isReadable_iff_admits (open?_ofArmors nestedArmors), admits_directory_iff (by decide)]
  refine ⟨⟨_, open?_ofArmors nestedArmors⟩, fun child held => ?_⟩
  rw [nestedArmors] at held
  simp only [List.mem_cons, List.not_mem_nil, or_false] at held
  obtain rfl | rfl | rfl | rfl := held
  · exact admits_file _
  · rw [admits_directory_iff (by decide), joined]
    exact ⟨⟨_, opened⟩, by simp [admits_file]⟩
  · exact admits_link _
  · exact admits_link _

/-- One of the links leads to the file beside it. -/
theorem open?_nestedArmors_link :
    (ofArmors nestedArmors).open? ⟨"Data/formcfg/Armor/b.cfg"⟩ = .ok (.file []) := by
  have target : steps ⟨"z.cfg"⟩ = ["z.cfg"] := by decide
  refine open?_of_walk ["Data", "formcfg", "Armor", "b.cfg"] ["Data", "formcfg", "Armor", "z.cfg"]
    (by decide) (by decide) (by decide) (by decide) ?_
  simp +decide [walk, startOf, ofArmors, Entry.at?, nestedArmors, List.lookup_cons, target, mostLinks]

end FileTree

/-- A file in a directory and a link to a file are found, whichever way round the directory of
armors holds them. -/
theorem discovery_of_nested_armors :
    (Loader.discover {} (.ofArmors FileTree.nestedArmors) .armor).reports = [] ∧
    ⟨"Data/formcfg/Armor/sub/one.CFG"⟩ ∈
      (Loader.discover {} (.ofArmors FileTree.nestedArmors) .armor).files ∧
    ⟨"Data/formcfg/Armor/b.cfg"⟩ ∈
      (Loader.discover {} (.ofArmors FileTree.nestedArmors) .armor).files ∧
    Loader.discover {} (.ofArmors FileTree.nestedArmors.reverse) .armor =
      Loader.discover {} (.ofArmors FileTree.nestedArmors) .armor := by
  have directory : Loader.recordDirectory {} .armor = ⟨"Data/formcfg/Armor"⟩ := by decide
  have opened := FileTree.open?_ofArmors FileTree.nestedArmors
  obtain ⟨reports, -, -, mem_iff, agrees⟩ := (discovery_of_files {} .armor).2
    (.ofArmors FileTree.nestedArmors) (FileTree.isProper_nestedArmors (by decide) (.refl _))
    (by rw [directory]; exact FileTree.isReadable_nestedArmors)
  rw [directory] at mem_iff
  have reversed := List.reverse_perm FileTree.nestedArmors
  refine ⟨reports, (mem_iff _).2 ?_, (mem_iff _).2 ?_,
    agrees _ (FileTree.isProper_nestedArmors (by decide) reversed)
      (FileTree.agrees_ofArmors (by decide) reversed.symm)⟩
  · refine ⟨["sub"], "one.CFG", .file [], by decide, ?_, trivial, "one", "CFG", by decide, by decide,
      by decide, Text.agree_iff_matches.1 (by decide)⟩
    rw [FileTree.reach?_of_open opened]
    rfl
  · refine ⟨[], "b.cfg", .link ⟨"z.cfg"⟩, by decide, ?_, ⟨[], FileTree.open?_nestedArmors_link⟩,
      "b", "cfg", by decide, by decide, by decide, Text.agree_iff_matches.1 (by decide)⟩
    rw [FileTree.reach?_of_open opened]
    rfl

end FormPatch
