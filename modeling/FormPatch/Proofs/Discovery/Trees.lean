import FormPatch.Proofs.Discovery.Paths

/-!
# What a tree holds under names

A directory of a file system holds each name once, so what stands in it is known by its name, and
the order in which it is held says nothing. Trees that agree under all names differ in that order
only, and every path leads to the same place in both.
-/

namespace FormPatch

namespace Entry

/-- Entries are met one by one, a directory after all that it holds. -/
@[elab_as_elim, induction_eliminator]
theorem induction {motive : Entry → Prop} (file : ∀ content, motive (.file content))
    (link : ∀ target, motive (.link target))
    (directory : ∀ entries, (∀ child ∈ entries, motive child.2) → motive (.directory entries))
    (entry : Entry) : motive entry :=
  match entry with
  | .file content => file content
  | .link target => link target
  | .directory entries => directory entries fun child _ => induction file link directory child.2
termination_by sizeOf entry
decreasing_by
  have held : child ∈ entries := by assumption
  have smaller := List.sizeOf_lt_of_mem held
  obtain ⟨name, held⟩ := child
  simp only [Entry.directory.sizeOf_spec, Prod.mk.sizeOf_spec] at smaller ⊢
  omega

/-- No name leads to the entry itself. -/
@[simp] theorem at?_nil (entry : Entry) : entry.at? [] = some entry := by
  cases entry <;> rfl

/-- Names lead on from where the first of them lead to. -/
theorem at?_append (front back : List String) (entry : Entry) :
    entry.at? (front ++ back) = (entry.at? front).bind (at? back) := by
  induction front generalizing entry with
  | nil => simp
  | cons name front hypothesis =>
    cases entry with
    | file content => rfl
    | link target => rfl
    | directory entries =>
      rw [List.cons_append, at?, at?]
      cases entries.lookup name with
      | none => rfl
      | some child => exact hypothesis child

/-! ## Proper trees -/

/-- What a directory of a file system holds: names, each of them once. -/
structure AreNamed (entries : List (String × Entry)) : Prop where
  /-- No name stands for two entries. -/
  nodup : (entries.map Prod.fst).Nodup
  /-- All names can name an entry. -/
  areNames : ∀ child ∈ entries, Path.IsName child.1

instance (entries : List (String × Entry)) : Decidable (AreNamed entries) :=
  decidable_of_iff ((entries.map Prod.fst).Nodup ∧ ∀ child ∈ entries, Path.IsName child.1)
    ⟨fun ⟨nodup, areNames⟩ => ⟨nodup, areNames⟩, fun areNamed => ⟨areNamed.1, areNamed.2⟩⟩

/-- Whether an entry is made of directories as they are in a file system. -/
def IsProper (entry : Entry) : Prop :=
  ∀ names entries, entry.at? names = some (.directory entries) → AreNamed entries

variable {entry child : Entry} {entries : List (String × Entry)} {name : String}
  {names : List String}

/-- Whatever a proper entry holds is proper. -/
theorem IsProper.at? (proper : entry.IsProper) (found : entry.at? names = some child) :
    child.IsProper := fun others entries held =>
  proper (names ++ others) entries (by rw [at?_append, found, Option.bind_some, held])

/-- The entries of a proper directory have different names, all of them proper. -/
theorem IsProper.areNamed (proper : (Entry.directory entries).IsProper) : AreNamed entries :=
  proper [] entries (at?_nil _)

/-- A name that stands for one entry leads to it. -/
theorem lookup_eq_some_iff (nodup : (entries.map Prod.fst).Nodup) :
    entries.lookup name = some child ↔ (name, child) ∈ entries := by
  rw [List.lookup_eq_some_iff]
  constructor
  · rintro ⟨front, behind, rfl, -⟩
    simp
  · intro held
    obtain ⟨front, behind, rfl⟩ := List.append_of_mem held
    refine ⟨front, behind, rfl, fun other before => ?_⟩
    rw [List.map_append, List.map_cons] at nodup
    have apart := (List.nodup_append.1 nodup).2.2 other.1 (List.mem_map_of_mem before) name
      List.mem_cons_self
    exact bne_iff_ne.2 apart.symm

/-- In another order a directory holds the same under its names. -/
theorem lookup_perm {others : List (String × Entry)} (nodup : (entries.map Prod.fst).Nodup)
    (perm : entries.Perm others) (name : String) : entries.lookup name = others.lookup name := by
  refine Option.ext fun child => ?_
  rw [lookup_eq_some_iff nodup, lookup_eq_some_iff ((perm.map Prod.fst).nodup_iff.1 nodup),
    perm.mem_iff]

/-- Names lead on from what a directory holds under the first of them. -/
theorem at?_cons_eq_some_iff {leaf : Entry} (nodup : (entries.map Prod.fst).Nodup) :
    (Entry.directory entries).at? (name :: names) = some leaf ↔
      ∃ child, (name, child) ∈ entries ∧ child.at? names = some leaf := by
  rw [Entry.at?, Option.bind_eq_some_iff]
  simp only [lookup_eq_some_iff nodup]

/-- A file is proper. -/
theorem isProper_file (content : List UInt8) : (file content).IsProper := by
  rintro (_ | ⟨name, names⟩) entries found <;> cases found

/-- A link is proper. -/
theorem isProper_link (target : Path) : (link target).IsProper := by
  rintro (_ | ⟨name, names⟩) entries found <;> cases found

/-- A directory is proper when it holds proper entries under names. -/
theorem isProper_directory_iff : (directory entries).IsProper ↔
    AreNamed entries ∧ ∀ child ∈ entries, child.2.IsProper := by
  constructor
  · intro proper
    refine ⟨proper.areNamed, fun child held => ?_⟩
    have leads : (directory entries).at? [child.1] = some child.2 :=
      (at?_cons_eq_some_iff proper.areNamed.nodup).2 ⟨child.2, held, at?_nil child.2⟩
    exact proper.at? leads
  · rintro ⟨areNamed, proper⟩ (_ | ⟨name, names⟩) others found
    · cases found
      exact areNamed
    · obtain ⟨child, held, found⟩ := (at?_cons_eq_some_iff areNamed.nodup).1 found
      exact proper (name, child) held names others found

/-- What a proper directory holds is proper. -/
theorem IsProper.held (proper : (directory entries).IsProper) (held : (name, child) ∈ entries) :
    child.IsProper :=
  (isProper_directory_iff.1 proper).2 (name, child) held

/-- What leads to an entry in a proper one are names. -/
theorem IsProper.areNames {leaf : Entry} (proper : entry.IsProper)
    (found : entry.at? names = some leaf) : ∀ name ∈ names, Path.IsName name := by
  induction names generalizing entry with
  | nil => simp
  | cons name names hypothesis =>
    cases entry with
    | file content => cases found
    | link target => cases found
    | directory entries =>
      obtain ⟨child, held, found⟩ := (at?_cons_eq_some_iff proper.areNamed.nodup).1 found
      exact List.forall_mem_cons.2
        ⟨proper.areNamed.areNames _ held, hypothesis (proper.held held) found⟩

/-! ## Faces -/

/-- What an entry is, apart from what a directory holds. -/
def face : Entry → Entry
  | file content => file content
  | link target => link target
  | directory _ => directory []

/-- Of a file everything is seen. -/
@[simp] theorem face_file (content : List UInt8) : (file content).face = file content := rfl

/-- Of a link everything is seen. -/
@[simp] theorem face_link (target : Path) : (link target).face = link target := rfl

/-- Of a directory nothing is seen of what it holds. -/
@[simp] theorem face_directory (entries : List (String × Entry)) :
    (directory entries).face = directory [] := rfl

/-- What looks like a file is that file. -/
theorem face_eq_file {content : List UInt8} : entry.face = file content ↔ entry = file content := by
  cases entry <;> simp

/-- What looks like a link is that link. -/
theorem face_eq_link {target : Path} : entry.face = link target ↔ entry = link target := by
  cases entry <;> simp

/-- What looks like a directory is one. -/
theorem face_eq_directory : entry.face = directory [] ↔ ∃ entries, entry = directory entries := by
  cases entry <;> simp

end Entry

namespace FileTree

/-- Whether a tree is made of directories as they are in a file system. -/
def IsProper (tree : FileTree) : Prop := tree.root.IsProper

/-- Whether the same names lead to directories, to equal files and to equal links in both trees. -/
structure Agrees (left right : FileTree) : Prop where
  /-- Paths start in the same directory. -/
  home : left.home = right.home
  /-- The same stands under all names. -/
  faces : ∀ names, (left.root.at? names).map Entry.face = (right.root.at? names).map Entry.face

/-- What names lead to from a directory, if none of the directories on the way is a link. -/
def reach? (tree : FileTree) (directory : Path) (names : List String) : Option Entry :=
  match tree.open? directory with
  | .ok entry => entry.at? names
  | .error _ => none

variable {tree left right : FileTree} {entry leaf : Entry} {path directory : Path} {place : Place}
  {names : List String}

/-- A tree agrees with itself. -/
theorem Agrees.refl (tree : FileTree) : tree.Agrees tree := ⟨rfl, fun _ => rfl⟩

/-- A tree agrees with those that agree with it. -/
theorem Agrees.symm (agrees : left.Agrees right) : right.Agrees left :=
  ⟨agrees.home.symm, fun names => (agrees.faces names).symm⟩

/-- Where one tree holds nothing, neither does the other one. -/
theorem Agrees.at?_eq_none (agrees : left.Agrees right) (found : left.root.at? names = none) :
    right.root.at? names = none := by
  have faces := agrees.faces names
  rw [found, Option.map_none] at faces
  exact Option.map_eq_none_iff.1 faces.symm

/-- Where one tree holds an entry, the other one holds an entry with the same face. -/
theorem Agrees.at?_eq_some (agrees : left.Agrees right)
    (found : left.root.at? names = some entry) :
    ∃ other, right.root.at? names = some other ∧ other.face = entry.face := by
  have faces := agrees.faces names
  rw [found, Option.map_some] at faces
  exact Option.map_eq_some_iff.1 faces.symm

/-- Steps lead to the same names in trees that agree, and to what stands there. -/
theorem Agrees.walk (agrees : left.Agrees right) {making : Bool} {links : Nat}
    {here todo : List String} (found : left.walk making links here todo = .ok place) :
    right.walk making links here todo = .ok ⟨place.names, right.root.at? place.names⟩ := by
  -- A step asks the tree for no more than one face, so it turns the same way in both trees. Where
  -- the first one refuses there is no place to compare.
  fun_induction left.walk making links here todo with
  | case1 =>
    cases found
    rw [FileTree.walk]
  | case2 links here name rest stays hypothesis =>
    rw [FileTree.walk, if_pos stays]
    exact hypothesis found
  | case3 links here rest moves hypothesis =>
    rw [FileTree.walk, if_neg moves, if_pos rfl]
    exact hypothesis found
  | case6 links here name moves sinks fits absent closed =>
    cases found
    have nothing := agrees.at?_eq_none absent
    rw [FileTree.walk, if_neg moves, if_neg sinks, if_neg closed, if_neg fits]
    simp [nothing]
  | case8 links here name rest moves sinks closed fits entries held hypothesis =>
    obtain ⟨other, stands, face⟩ := agrees.at?_eq_some held
    obtain ⟨others, rfl⟩ := Entry.face_eq_directory.1 face
    rw [FileTree.walk, if_neg moves, if_neg sinks, if_neg closed, if_neg fits]
    simp only [stands]
    exact hypothesis found
  | case9 links here name moves sinks fits content held closed =>
    cases found
    obtain ⟨other, stands, face⟩ := agrees.at?_eq_some held
    rw [FileTree.walk, if_neg moves, if_neg sinks, if_neg closed, if_neg fits]
    simp [stands, Entry.face_eq_file.1 face]
  | case12 here name rest moves sinks closed fits target held links hypothesis =>
    obtain ⟨other, stands, face⟩ := agrees.at?_eq_some held
    rw [FileTree.walk, if_neg moves, if_neg sinks, if_neg closed, if_neg fits]
    simp only [stands, Entry.face_eq_link.1 face]
    exact hypothesis found
  | case4 | case5 | case7 | case10 | case11 => cases found

/-- Paths lead to the same names in trees that agree, and to what stands there. -/
theorem Agrees.find (agrees : left.Agrees right) (found : left.find path = .ok place) :
    right.find path = .ok ⟨place.names, right.root.at? place.names⟩ := by
  rw [FileTree.find, follow] at found ⊢
  by_cases empty : path.text = ""
  · rw [if_pos empty] at found
    cases found
  by_cases ended : path.text.toList.contains '\x00' = true
  · rw [if_neg empty, if_pos ended] at found
    cases found
  by_cases long : longestPath < path.text.utf8ByteSize
  · rw [if_neg empty, if_neg ended, if_pos long] at found
    cases found
  rw [if_neg empty, if_neg ended, if_neg long] at found ⊢
  rw [← agrees.home]
  exact agrees.walk found

/-- What a path leads to stands in the tree. -/
theorem find_entry (found : tree.find path = .ok place) :
    place.entry = tree.root.at? place.names := by
  have again := (Agrees.refl tree).find found
  rw [found] at again
  exact congrArg Place.entry (Except.ok.inj again)

/-- What is opened is what a path leads to. -/
theorem open?_eq_ok_iff : tree.open? path = .ok entry ↔
    ∃ place, tree.find path = .ok place ∧ tree.root.at? place.names = some entry := by
  constructor
  · intro opened
    rw [open?] at opened
    cases found : tree.find path with
    | error fault =>
      rw [found] at opened
      cases opened
    | ok place =>
      refine ⟨place, rfl, ?_⟩
      rw [← find_entry found]
      obtain ⟨names, reached | reached⟩ := place
      · rw [found] at opened
        cases opened
      · rw [found] at opened
        cases opened
        rfl
  · rintro ⟨place, found, held⟩
    rw [← find_entry found] at held
    obtain ⟨names, reached⟩ := place
    cases held
    rw [open?, found]
    rfl

/-- A path that the system takes is opened by its steps. -/
theorem open?_of_walk (todo names : List String) (filled : path.text ≠ "")
    (plain : path.text.toList.contains '\x00' = false)
    (fits : path.text.utf8ByteSize ≤ longestPath) (split : steps path = todo)
    (walked : tree.walk false mostLinks (startOf tree.home path) todo =
      .ok ⟨names, some entry⟩) : tree.open? path = .ok entry := by
  have found : tree.find path = .ok ⟨names, some entry⟩ := by
    rw [FileTree.find, follow, if_neg filled, if_neg (by simpa using plain),
      if_neg (Nat.not_lt.2 fits), split, walked]
  exact open?_eq_ok_iff.2 ⟨_, found, (find_entry found).symm⟩

/-- A file that holds the bytes of a text is read as the text. -/
theorem readText_of_open? {text : String}
    (opened : tree.open? path = .ok (.file text.toUTF8.data.toList)) :
    tree.readText path = .ok text := by
  have decoded : String.fromUTF8? ⟨text.toUTF8.data.toList.toArray⟩ = some text := by
    rw [Array.toArray_toList]
    exact dif_pos text.isValidUTF8
  simp only [readText, read, opened, contentOf, bind, Except.bind, decoded]
  rfl

/-- What is opened in trees that agree has the same face. -/
theorem Agrees.open? (agrees : left.Agrees right) (opened : left.open? path = .ok entry) :
    ∃ other, right.open? path = .ok other ∧ other.face = entry.face := by
  obtain ⟨place, found, held⟩ := open?_eq_ok_iff.1 opened
  obtain ⟨other, stands, face⟩ := agrees.at?_eq_some held
  exact ⟨other, open?_eq_ok_iff.2 ⟨_, agrees.find found, stands⟩, face⟩

/-- Names lead from a directory to what stands in the tree under the names of the directory and
behind them these. -/
theorem reach?_eq_some_iff : tree.reach? directory names = some leaf ↔
    ∃ place, tree.find directory = .ok place ∧
      tree.root.at? (place.names ++ names) = some leaf := by
  have opened : tree.reach? directory names = some leaf ↔
      ∃ entry, tree.open? directory = .ok entry ∧ entry.at? names = some leaf := by
    rw [reach?]
    cases tree.open? directory <;> simp
  simp only [opened, open?_eq_ok_iff, Entry.at?_append, Option.bind_eq_some_iff]
  constructor
  · rintro ⟨entry, ⟨place, found, held⟩, leads⟩
    exact ⟨place, found, entry, held, leads⟩
  · rintro ⟨place, found, entry, held, leads⟩
    exact ⟨entry, ⟨place, found, held⟩, leads⟩

/-- In trees that agree, what names lead to from a directory has the same face. -/
theorem Agrees.reach? (agrees : left.Agrees right)
    (found : left.reach? directory names = some leaf) :
    ∃ other, right.reach? directory names = some other ∧ other.face = leaf.face := by
  obtain ⟨place, leads, held⟩ := reach?_eq_some_iff.1 found
  obtain ⟨other, stands, face⟩ := agrees.at?_eq_some held
  exact ⟨other, reach?_eq_some_iff.2 ⟨_, agrees.find leads, stands⟩, face⟩

/-! ## Files and directories that can be opened -/

/-- A path leads to a file exactly when a file is opened there. -/
theorem isFile_iff : tree.isFile path = true ↔ ∃ content, tree.open? path = .ok (.file content) := by
  rw [isFile]
  split
  · next content opened => simp [opened]
  · next other => simpa using other

/-- Whether an entry under a path is a file or a link that leads to one. -/
def Shows (tree : FileTree) (path : Path) : Entry → Prop
  | .file _ => True
  | .link _ => ∃ content, tree.open? path = .ok (.file content)
  | .directory _ => False

/-- Files, and links to files, are such in trees that agree. -/
theorem Agrees.shows {other : Entry} (agrees : left.Agrees right) (face : other.face = entry.face)
    (shows : left.Shows path entry) : right.Shows path other := by
  cases entry with
  | file content =>
    cases Entry.face_eq_file.1 face
    trivial
  | link target =>
    cases Entry.face_eq_link.1 face
    obtain ⟨content, opened⟩ := shows
    obtain ⟨same, opened, face⟩ := agrees.open? opened
    exact ⟨content, by rw [opened, Entry.face_eq_file.1 face]⟩
  | directory entries => exact shows.elim

/-- Whether all directories at or below an entry can be opened under their paths. -/
def Admits (tree : FileTree) (path : Path) (entry : Entry) : Prop :=
  ∀ names entries, entry.at? names = some (.directory entries) →
    ∃ opened, tree.open? (path.below names) = .ok opened

/-- A search that meets a file has nothing to open. -/
theorem admits_file (content : List UInt8) : tree.Admits path (.file content) := by
  rintro (_ | ⟨name, names⟩) entries found <;> cases found

/-- A search that meets a link has nothing to open. -/
theorem admits_link (target : Path) : tree.Admits path (.link target) := by
  rintro (_ | ⟨name, names⟩) entries found <;> cases found

/-- All directories at or below a directory can be opened when it can, and those at or below what it
holds can. -/
theorem admits_directory_iff {entries : List (String × Entry)}
    (nodup : (entries.map Prod.fst).Nodup) :
    tree.Admits directory (.directory entries) ↔
      (∃ opened, tree.open? directory = .ok opened) ∧
        ∀ child ∈ entries, tree.Admits (directory.join ⟨child.1⟩) child.2 := by
  constructor
  · intro admits
    refine ⟨admits [] entries (Entry.at?_nil _), fun child held names others found => ?_⟩
    exact admits (child.1 :: names) others
      ((Entry.at?_cons_eq_some_iff nodup).2 ⟨child.2, held, found⟩)
  · rintro ⟨opens, admits⟩ (_ | ⟨name, names⟩) others found
    · exact opens
    · obtain ⟨child, held, found⟩ := (Entry.at?_cons_eq_some_iff nodup).1 found
      exact admits (name, child) held names others found

/-- Whether all directories that names lead to from a directory can be opened. -/
def IsReadable (tree : FileTree) (directory : Path) : Prop :=
  ∀ names entries, tree.reach? directory names = some (.directory entries) →
    ∃ opened, tree.open? (directory.below names) = .ok opened

/-- From a directory that is opened, names lead where they lead in what was opened. -/
theorem reach?_of_open (opened : tree.open? directory = .ok entry) (names : List String) :
    tree.reach? directory names = entry.at? names := by
  rw [reach?, opened]

/-- Whether a directory can be searched depends on what is opened there. -/
theorem isReadable_iff_admits (opened : tree.open? directory = .ok entry) :
    tree.IsReadable directory ↔ tree.Admits directory entry := by
  simp only [IsReadable, reach?_of_open opened, Admits]

/-- Directories can be opened in trees that agree. -/
theorem Agrees.isReadable (agrees : left.Agrees right) (readable : left.IsReadable directory) :
    right.IsReadable directory := by
  intro names entries found
  obtain ⟨same, leads, face⟩ := agrees.symm.reach? found
  obtain ⟨others, rfl⟩ := Entry.face_eq_directory.1 face
  obtain ⟨opened, opens⟩ := readable names others leads
  obtain ⟨again, opens, -⟩ := agrees.open? opens
  exact ⟨again, opens⟩

end FileTree

end FormPatch
