import FormPatch.CommandLine
import FormPatch.Proofs.Discovery.Trees
import FormPatch.Proofs.Log.Buffer

/-!
# The capacity of the log

How many diagnostics are shown makes no difference to what a session does. Two sessions that differ
in nothing but the capacity differ in nothing else after each step, whatever is searched, read,
reported and applied on the way. Neither do the calls that they make to their logs, so a log that
keeps no more than it shows would serve as well. Main statement: files, stores, summaries and
histories are equal, the smaller capacity shows the end of what the larger one shows, and a call of
the program comes to the same when the options that set the capacity are left out.
-/

namespace FormPatch

namespace Loader

variable (capacity : Nat) (loader : Loader) (tree : FileTree)

/-- The loader with another capacity. -/
def withCapacity : Loader := { loader with capacity := capacity }

mutual

/-- The capacity plays no part in a search. -/
theorem filesAt_withCapacity (path : Path) (entry : Entry) :
    (loader.withCapacity capacity).filesAt tree path entry = loader.filesAt tree path entry := by
  cases entry with
  | file content => rfl
  | link target => rfl
  | directory entries =>
    rw [filesAt, filesAt]
    split
    · rfl
    · exact filesIn_withCapacity path entries

/-- The capacity plays no part in the search of a directory. -/
theorem filesIn_withCapacity (directory : Path) (entries : List (String × Entry)) :
    (loader.withCapacity capacity).filesIn tree directory entries =
      loader.filesIn tree directory entries := by
  match entries with
  | [] => rfl
  | (name, entry) :: rest =>
    rw [filesIn, filesIn, filesAt_withCapacity (directory.join ⟨name⟩) entry,
      filesIn_withCapacity directory rest]

end

/-- The capacity plays no part in what is found. -/
theorem discover_withCapacity (type : RecordType) :
    (loader.withCapacity capacity).discover tree type = loader.discover tree type := by
  simp only [discover, filesIn_withCapacity]
  rfl

end Loader

namespace Session

/-- The session with another capacity. -/
def withCapacity (capacity : Nat) (session : Session) : Session :=
  ⟨session.loader.withCapacity capacity, session.log.withCapacity capacity, session.files⟩

variable (capacity : Nat) (tree : FileTree) (session : Session)

/-- Reading a file keeps two sessions alike. -/
theorem readPath_withCapacity (type : RecordType) (path : Path) :
    (session.withCapacity capacity).readPath tree type path =
      (session.readPath tree type path).withCapacity capacity := by
  have logged := Log.pushAll_withCapacity capacity (session.log.about (some path))
    (PatchFile.load tree type path).2
  exact congrArg (fun log : Log => (⟨session.loader.withCapacity capacity, log.about none,
    session.files ++ [⟨path, (PatchFile.load tree type path).1⟩]⟩ : Session)) logged

/-- Reading the files of a record type keeps two sessions alike. -/
theorem readType_withCapacity (type : RecordType) :
    (session.withCapacity capacity).readType tree type =
      (session.readType tree type).withCapacity capacity := by
  have searched : (session.withCapacity capacity).loader.discover tree type =
      session.loader.discover tree type :=
    session.loader.discover_withCapacity capacity tree type
  have logged := Log.pushAll_withCapacity capacity session.log
    (session.loader.discover tree type).reports
  have begun : ({ session.withCapacity capacity with
      log := (session.withCapacity capacity).log.pushAll
        (session.loader.discover tree type).reports } : Session) =
      withCapacity capacity { session with
        log := session.log.pushAll (session.loader.discover tree type).reports } :=
    congrArg (fun log : Log =>
      (⟨session.loader.withCapacity capacity, log, session.files⟩ : Session)) logged
  simp only [readType, searched, begun]
  exact List.foldl_hom (withCapacity capacity)
    fun session path => readPath_withCapacity capacity tree session type path

/-- Reading every file keeps two sessions alike. -/
theorem readAll_withCapacity :
    (session.withCapacity capacity).readAll tree = (session.readAll tree).withCapacity capacity :=
  List.foldl_hom (withCapacity capacity) (readType_withCapacity capacity tree)

/-- Applying every file keeps two sessions alike, and their stores are one. -/
theorem applyAll_withCapacity (store : Store) :
    (session.withCapacity capacity).applyAll store =
      ((session.applyAll store).1.withCapacity capacity, (session.applyAll store).2) := by
  have applied : session.inOrder.foldl applyFile
      (Prod.map (Log.withCapacity capacity) id (session.log, store)) =
      Prod.map (Log.withCapacity capacity) id
        (session.inOrder.foldl applyFile (session.log, store)) := by
    refine List.foldl_hom (Prod.map (Log.withCapacity capacity) id) fun state file => ?_
    exact congrArg (·, (file.patches.apply state.2).store)
      (Log.pushAll_withCapacity capacity (state.1.about (some file.path)) _)
  have all := congrArg (fun state : Log × Store =>
    ((⟨session.loader.withCapacity capacity, state.1.about none, session.files⟩ : Session),
      state.2)) applied
  exact all

/-- A whole run keeps two sessions alike, and their stores are one. -/
theorem run_withCapacity (store : Store) :
    (session.withCapacity capacity).run tree store =
      ((session.run tree store).1.withCapacity capacity, (session.run tree store).2) := by
  rw [run, readAll_withCapacity, applyAll_withCapacity]
  rfl

/-- Sessions that began with different capacities and differ in nothing else. -/
structure Alike (fewer : Nat) (smaller larger : Session × Store) : Prop where
  /-- The files are equal. -/
  files : smaller.1.files = larger.1.files
  /-- The stores are equal. -/
  stores : smaller.2 = larger.2
  /-- The numbers are equal. -/
  summaries : smaller.1.summary = larger.1.summary
  /-- The smaller capacity shows the end of what the larger one shows. -/
  retained : smaller.1.log.retained = Log.lastOf fewer larger.1.log.retained

/-- Sessions with different capacities are alike at the end. -/
theorem alike_run (loader : Loader) (store : Store) {fewer more : Nat} (fits : fewer ≤ more) :
    Alike fewer ((start (loader.withCapacity fewer)).run tree store)
      ((start (loader.withCapacity more)).run tree store) := by
  have begun (count : Nat) : start (loader.withCapacity count) =
      (start loader).withCapacity count := rfl
  rw [begun, begun, run_withCapacity, run_withCapacity]
  exact ⟨rfl, rfl, rfl, Log.retained_withCapacity _ fits⟩

section Calls

/-- The calls to the log while a file is read. -/
def readPathCalls (type : RecordType) (path : Path) : List Log.Call :=
  .about (some path) :: (PatchFile.load tree type path).2.map .push ++ [.about none]

/-- The calls to the log while the files of a record type are searched and read. -/
def readTypeCalls (loader : Loader) (type : RecordType) : List Log.Call :=
  (loader.discover tree type).reports.map .push ++
    (loader.discover tree type).files.flatMap (readPathCalls tree type)

/-- The calls to the log while files are applied. -/
def applyCalls (store : Store) : List SourceFile → List Log.Call
  | [] => [.about none]
  | file :: files =>
    .about (some file.path) :: (file.patches.apply store).reports.map .push ++
      applyCalls (file.patches.apply store).store files

/-- The calls to the log in a whole run. -/
def runCalls (store : Store) : List Log.Call :=
  RecordType.inOrder.flatMap (readTypeCalls tree session.loader) ++
    applyCalls store (session.readAll tree).inOrder

/-- Reading a file makes its calls. -/
theorem log_readPath (type : RecordType) (path : Path) :
    (session.readPath tree type path).log = session.log.perform (readPathCalls tree type path) := by
  rw [readPathCalls, List.cons_append, Log.perform_about, Log.perform_append, Log.perform_push]
  rfl

/-- Reading files in order makes the calls of each. -/
theorem log_foldl_readPath (type : RecordType) (paths : List Path) :
    (paths.foldl (fun session path => session.readPath tree type path) session).log =
      session.log.perform (paths.flatMap (readPathCalls tree type)) := by
  induction paths generalizing session with
  | nil => rfl
  | cons path paths ih =>
    rw [List.foldl_cons, ih, log_readPath, List.flatMap_cons, Log.perform_append]

/-- Reading the files of a record type makes the calls of the search and of each file. -/
theorem log_readType (type : RecordType) :
    (session.readType tree type).log =
      session.log.perform (readTypeCalls tree session.loader type) := by
  rw [readTypeCalls, Log.perform_append, Log.perform_push]
  exact log_foldl_readPath tree { session with log := session.log.pushAll _ } type _

/-- Files stay where they lie while those of a record type are read. -/
theorem loader_readType (type : RecordType) :
    (session.readType tree type).loader = session.loader := by
  have kept (paths : List Path) (session : Session) :
      (paths.foldl (fun session path => session.readPath tree type path) session).loader =
        session.loader := by
    induction paths generalizing session with
    | nil => rfl
    | cons path paths ih => exact ih (session.readPath tree type path)
  exact kept _ _

/-- Reading record types in order makes the calls of each. -/
theorem log_foldl_readType (types : List RecordType) :
    (types.foldl (fun session type => session.readType tree type) session).log =
      session.log.perform (types.flatMap (readTypeCalls tree session.loader)) := by
  induction types generalizing session with
  | nil => rfl
  | cons type types ih =>
    rw [List.foldl_cons, ih, log_readType, loader_readType, List.flatMap_cons, Log.perform_append]

/-- Applying files in order makes the calls of each, and the last one says that no file is worked
on. -/
theorem log_foldl_applyFile (files : List SourceFile) (log : Log) (store : Store) :
    (files.foldl applyFile (log, store)).1.about none = log.perform (applyCalls store files) := by
  induction files generalizing log store with
  | nil => rfl
  | cons file files ih =>
    have behind := ih (applyFile (log, store) file).1 (applyFile (log, store) file).2
    rw [applyCalls, List.cons_append, Log.perform_about, Log.perform_append, Log.perform_push]
    exact behind

/-- A whole run makes its calls. -/
theorem log_run (store : Store) :
    (session.run tree store).1.log = session.log.perform (session.runCalls tree store) := by
  rw [runCalls, Log.perform_append, ← log_foldl_readType]
  exact log_foldl_applyFile (session.readAll tree).inOrder (session.readAll tree).log store

/-- The calls of a run do not depend on the capacity. -/
theorem runCalls_withCapacity (store : Store) :
    (session.withCapacity capacity).runCalls tree store = session.runCalls tree store := by
  have read (type : RecordType) : readTypeCalls tree (session.withCapacity capacity).loader type =
      readTypeCalls tree session.loader type := by
    simp only [readTypeCalls, withCapacity, Loader.discover_withCapacity]
  simp only [runCalls, readAll_withCapacity, funext read]
  rfl

/-- A log that keeps no more than it shows knows as much at the end of a run when the calls of the
run are made to it. -/
theorem buffer_run (loader : Loader) (store : Store) :
    ((start (loader.withCapacity capacity)).run tree store).1.log.buffer =
      (Log.Buffer.ofCapacity capacity).perform ((start loader).runCalls tree store) := by
  have begun : start (loader.withCapacity capacity) =
      (start loader).withCapacity capacity := rfl
  rw [log_run, Log.buffer_perform, begun, runCalls_withCapacity]
  exact congrArg (Log.Buffer.perform _) (Log.buffer_ofCapacity capacity)

end Calls

end Session

namespace CommandLine

/-- The options with no capacity set. -/
def Options.clear (options : Options) : Options := { options with capacity := none }

/-- The arguments without the options that set the capacity. What stands behind an argument that is
no option stays. -/
def withoutCapacity : List String → List String
  | [] => []
  | argument :: rest =>
    if (flag? argument).isSome then argument :: withoutCapacity rest
    else
      match rest with
      | [] => [argument]
      | value :: others =>
        if argument = "--max-diagnostics" ∧ (capacity? value).isSome then withoutCapacity others
        else if (setting? argument).isSome then argument :: value :: withoutCapacity others
        else argument :: value :: others

/-- A flag says nothing about the capacity. -/
theorem clear_flag {argument : String} {change : Options → Options}
    (flag : flag? argument = some change) (options : Options) :
    (change options).clear = change options.clear := by
  unfold flag? at flag
  split at flag
  all_goals first
    | cases flag
      rfl
    | cases flag

/-- What an option with a value comes to does not depend on the capacity so far. -/
theorem clear_setting {argument : String} {change : String → Options → Except Misuse Options}
    (setting : setting? argument = some change) (value : String) (options : Options) :
    (change value options).map Options.clear = (change value options.clear).map Options.clear := by
  unfold setting? at setting
  split at setting
  all_goals cases setting
  all_goals rfl

/-- A flag is read on its own. -/
theorem read_flag {argument : String} {change : Options → Options}
    (flag : flag? argument = some change) (options : Options) (rest : List String) :
    options.read (argument :: rest) = (change options).read rest := by
  rw [Options.read.eq_def]
  simp only [flag]

/-- An option is read with its value. -/
theorem read_setting {argument : String} {change : String → Options → Except Misuse Options}
    (flag : flag? argument = none) (setting : setting? argument = some change) (options : Options)
    (value : String) (rest : List String) :
    options.read (argument :: value :: rest) =
      (change value options).bind fun changed => changed.read rest := by
  rw [Options.read.eq_def]
  simp only [flag, setting]
  rfl

/-- What is no option, or lacks its value, is refused whatever was read before. -/
theorem read_refused {argument : String} {rest : List String} (flag : flag? argument = none)
    (stuck : setting? argument = none ∨ rest = []) :
    ∃ misuse, ∀ options : Options, options.read (argument :: rest) = .error misuse := by
  cases setting : setting? argument with
  | none =>
    refine ⟨.unknown argument, fun options => ?_⟩
    rw [Options.read.eq_def]
    simp only [flag, setting]
  | some change =>
    rcases stuck with unknown | rfl
    · rw [setting] at unknown
      cases unknown
    · refine ⟨.noValue argument, fun options => ?_⟩
      rw [Options.read.eq_def]
      simp only [flag, setting]

/-- What is read behind changes that differ in the capacity only differs in nothing else. -/
theorem map_clear_bind {left right : Except Misuse Options}
    {first second : Options → Except Misuse Options}
    (same : left.map Options.clear = right.map Options.clear)
    (goesOn : ∀ {options others : Options}, options.clear = others.clear →
      (first options).map Options.clear = (second others).map Options.clear) :
    (left.bind first).map Options.clear = (right.bind second).map Options.clear := by
  cases left with
  | error misuse =>
    cases right with
    | error other => exact congrArg (Except.map Options.clear) (by cases same; rfl)
    | ok others => cases same
  | ok options =>
    cases right with
    | error misuse => cases same
    | ok others => exact goesOn (Except.ok.inj same)

/-- Options that set the capacity may be left out, and whatever the capacity was, the options that
are read differ in nothing else. -/
theorem read_withoutCapacity (arguments : List String) {options others : Options}
    (same : options.clear = others.clear) :
    (options.read arguments).map Options.clear =
      (others.read (withoutCapacity arguments)).map Options.clear := by
  induction arguments using withoutCapacity.induct generalizing options others with
  | case1 => exact congrArg Except.ok same
  | case2 argument rest flag ih =>
    obtain ⟨change, flag'⟩ := Option.isSome_iff_exists.1 flag
    rw [withoutCapacity.eq_def]
    simp only [flag, if_true]
    rw [read_flag flag', read_flag flag']
    refine ih ?_
    rw [clear_flag flag', clear_flag flag', same]
  | case3 argument flag =>
    have none := Option.not_isSome_iff_eq_none.1 flag
    obtain ⟨misuse, refused⟩ := read_refused none (.inr rfl)
    rw [withoutCapacity.eq_def]
    simp only [flag, Bool.false_eq_true, if_false, refused]
  | case4 argument flag value rest dropped ih =>
    obtain ⟨count, valid⟩ := Option.isSome_iff_exists.1 dropped.2
    have taken : options.read (argument :: value :: rest) =
        ({ options with capacity := some count } : Options).read rest := by
      rw [dropped.1, read_setting rfl rfl]
      simp only [valid]
      rfl
    rw [withoutCapacity.eq_def]
    simp only [flag, Bool.false_eq_true, if_false, if_pos dropped]
    rw [taken]
    exact ih same
  | case5 argument flag value rest kept known ih =>
    have none := Option.not_isSome_iff_eq_none.1 flag
    obtain ⟨change, setting⟩ := Option.isSome_iff_exists.1 known
    have changed : (change value options).map Options.clear =
        (change value others).map Options.clear := by
      rw [clear_setting setting, same, ← clear_setting setting]
    rw [withoutCapacity.eq_def]
    simp only [flag, Bool.false_eq_true, if_false, if_neg kept, if_pos known]
    rw [read_setting none setting, read_setting none setting]
    exact map_clear_bind changed ih
  | case6 argument flag value rest kept unknown =>
    have none := Option.not_isSome_iff_eq_none.1 flag
    have stuck : setting? argument = Option.none ∨ value :: rest = [] :=
      .inl (Option.not_isSome_iff_eq_none.1 unknown)
    obtain ⟨misuse, refused⟩ := read_refused none stuck
    rw [withoutCapacity.eq_def]
    simp only [flag, Bool.false_eq_true, if_false, if_neg kept, if_neg unknown, refused]

/-- The options that a call has differ in nothing else without those that set the capacity. -/
theorem parse_withoutCapacity (arguments : List String) :
    (parse arguments).map Options.clear =
      (parse (withoutCapacity arguments)).map Options.clear := by
  refine map_clear_bind (read_withoutCapacity arguments rfl) fun {options others} same => ?_
  have checked (options : Options) :
      (if options.checkOnly && options.save.isSome then throw .saveWithCheck
        else pure options : Except Misuse Options).map Options.clear =
      if options.clear.checkOnly && options.clear.save.isSome then .error .saveWithCheck
        else .ok options.clear := by
    by_cases misused : (options.checkOnly && options.save.isSome) = true
    · rw [if_pos misused]
      exact (if_pos misused).symm
    · rw [if_neg misused]
      exact (if_neg misused).symm
  rw [checked, checked, same]

/-- Nothing but the capacity is cleared. -/
theorem clear_eq (options : Options) :
    options.clear.world = options.world ∧ options.clear.save = options.save ∧
      options.clear.checkOnly = options.checkOnly ∧
      options.clear.printFiles = options.printFiles ∧ options.clear.quiet = options.quiet :=
  ⟨rfl, rfl, rfl, rfl, rfl⟩

/-- What a call does with options does not depend on the capacity. -/
theorem execute_clear (options : Options) (tree : FileTree) :
    execute options tree = execute options.clear tree := by
  have read : (Session.start options.loader).readAll tree =
      ((Session.start options.clear.loader).readAll tree).withCapacity options.loader.capacity :=
    Session.readAll_withCapacity options.loader.capacity tree (Session.start options.clear.loader)
  obtain ⟨world, save, check, print, quiet⟩ := clear_eq options
  unfold execute
  rw [read, world, save, check, print, quiet]
  generalize (Session.start options.clear.loader).readAll tree = session
  cases options.checkOnly with
  | false =>
    simp only [Session.applyAll_withCapacity, Bool.false_eq_true, if_false]
    rfl
  | true => rfl

/-- A call of the program comes to the same without the options that set the capacity. -/
theorem run_withoutCapacity (arguments : List String) (tree : FileTree) :
    run arguments tree = run (withoutCapacity arguments) tree := by
  have same := parse_withoutCapacity arguments
  unfold run
  cases left : parse arguments with
  | error misuse =>
    cases right : parse (withoutCapacity arguments) with
    | error other =>
      rw [left, right] at same
      cases same
      rfl
    | ok others =>
      rw [left, right] at same
      cases same
  | ok options =>
    cases right : parse (withoutCapacity arguments) with
    | error misuse =>
      rw [left, right] at same
      cases same
    | ok others =>
      rw [left, right] at same
      have cleared : options.clear = others.clear := Except.ok.inj same
      have help : options.help = others.help := (congrArg Options.help cleared :)
      have version : options.version = others.version := (congrArg Options.version cleared :)
      simp only [help, version]
      rw [execute_clear options, execute_clear others, cleared]

example : withoutCapacity ["--check", "--max-diagnostics", "0"] = ["--check"] := by decide

end CommandLine

/-- How many diagnostics are shown makes no difference to the files, the store and the summary of a
session, and none to what a call of the program comes to, its exit code included; a smaller capacity
shows the end of what a larger one shows. The calls that a session makes to its log are the same for
every capacity, and a log that keeps no more than it shows knows as much at the end of them. -/
theorem irrelevance_of_capacity :
    (∀ (tree : FileTree) (loader : Loader) (store : Store) (fewer more : Nat), fewer ≤ more →
      Session.Alike fewer ((Session.start (loader.withCapacity fewer)).run tree store)
        ((Session.start (loader.withCapacity more)).run tree store)) ∧
    (∀ (tree : FileTree) (loader : Loader) (store : Store) (capacity : Nat),
      ((Session.start (loader.withCapacity capacity)).run tree store).1.log.buffer =
        (Log.Buffer.ofCapacity capacity).perform
          ((Session.start loader).runCalls tree store)) ∧
    ∀ (arguments : List String) (tree : FileTree),
      CommandLine.run arguments tree =
        CommandLine.run (CommandLine.withoutCapacity arguments) tree :=
  ⟨fun tree loader store _ _ fits => Session.alike_run tree loader store fits,
    fun tree loader store capacity => Session.buffer_run capacity tree loader store,
    CommandLine.run_withoutCapacity⟩

/-- A tree with one file of keywords and no directory of armors. -/
def FileTree.ofKeywords (text : String) : FileTree :=
  ⟨.directory [("Data", .directory [("formcfg", .directory [("Keyword",
    .directory [("a.cfg", .file text.toUTF8.data.toList)])])])], []⟩

section OfKeywords

variable (text : String)

namespace FileTree

/-- Its directory of keywords holds the file. -/
theorem list_ofKeywords_keyword : (ofKeywords text).list ⟨"Data/formcfg/Keyword"⟩ =
    [("a.cfg", .file text.toUTF8.data.toList)] := by
  have opened : (ofKeywords text).open? ⟨"Data/formcfg/Keyword"⟩ =
      .ok (.directory [("a.cfg", .file text.toUTF8.data.toList)]) := by
    refine open?_of_walk ["Data", "formcfg", "Keyword"] ["Data", "formcfg", "Keyword"]
      (by decide) (by decide) (by decide) (by decide) ?_
    simp +decide [walk, startOf, ofKeywords, Entry.at?]
  rw [list, opened]

/-- It has no armors. -/
theorem list_ofKeywords_armor : (ofKeywords text).list ⟨"Data/formcfg/Armor"⟩ = [] := by
  have missing : (ofKeywords text).open? ⟨"Data/formcfg/Armor"⟩ = .error .notFound := by
    have steps : steps ⟨"Data/formcfg/Armor"⟩ = ["Data", "formcfg", "Armor"] := by decide
    rw [open?, find, follow, if_neg (by decide), if_neg (by decide), if_neg (by decide), steps]
    simp +decide [walk, startOf, ofKeywords, Entry.at?]
    rfl
  rw [list, missing]

/-- The file holds the text. -/
theorem readText_ofKeywords : (ofKeywords text).readText ⟨"Data/formcfg/Keyword/a.cfg"⟩ =
    .ok text := by
  refine readText_of_open? (open?_of_walk ["Data", "formcfg", "Keyword", "a.cfg"]
    ["Data", "formcfg", "Keyword", "a.cfg"] (by decide) (by decide) (by decide) (by decide) ?_)
  simp +decide [walk, startOf, ofKeywords, Entry.at?]

end FileTree

/-- A search for keywords finds the file. -/
theorem Loader.discover_ofKeywords_keyword : Loader.discover {} (.ofKeywords text) .keyword =
    ⟨[⟨"Data/formcfg/Keyword/a.cfg"⟩], []⟩ := by
  have directory : Loader.recordDirectory {} .keyword = ⟨"Data/formcfg/Keyword"⟩ := by decide
  have joined : (⟨"Data/formcfg/Keyword"⟩ : Path).join ⟨"a.cfg"⟩ =
      ⟨"Data/formcfg/Keyword/a.cfg"⟩ := by decide
  have accepted : Loader.accepts {} ⟨"Data/formcfg/Keyword/a.cfg"⟩ = true := by decide
  rw [discover, directory, FileTree.list_ofKeywords_keyword, filesIn, filesAt, joined,
    if_pos accepted, filesIn]
  exact congrArg (Discovery.mk · []) (List.mergeSort_singleton _)

/-- A search for armors finds nothing. -/
theorem Loader.discover_ofKeywords_armor :
    Loader.discover {} (.ofKeywords text) .armor = ⟨[], []⟩ := by
  have directory : Loader.recordDirectory {} .armor = ⟨"Data/formcfg/Armor"⟩ := by decide
  rw [discover, directory, FileTree.list_ofKeywords_armor, filesIn]
  exact congrArg (Discovery.mk · []) List.mergeSort_nil

/-- What a session reads from the tree is what the text holds. -/
theorem Session.readAll_ofKeywords (capacity : Nat) :
    (start (Loader.withCapacity capacity {})).readAll (.ofKeywords text) =
      ⟨Loader.withCapacity capacity {},
        (((Log.ofCapacity capacity).about (some ⟨"Data/formcfg/Keyword/a.cfg"⟩)).pushAll
          (PatchFile.ofText .keyword text).2).about none,
        [⟨⟨"Data/formcfg/Keyword/a.cfg"⟩, (PatchFile.ofText .keyword text).1⟩]⟩ := by
  have loaded : PatchFile.load (.ofKeywords text) .keyword ⟨"Data/formcfg/Keyword/a.cfg"⟩ =
      PatchFile.ofText .keyword text := by
    rw [PatchFile.load, FileTree.readText_ofKeywords]
  have keywords : (start (Loader.withCapacity capacity {})).readType (.ofKeywords text) .keyword =
      (start (Loader.withCapacity capacity {})).readPath (.ofKeywords text) .keyword
        ⟨"Data/formcfg/Keyword/a.cfg"⟩ := by
    simp only [readType, start, Loader.discover_withCapacity, Loader.discover_ofKeywords_keyword]
    rfl
  have armors (log : Log) (files : List SourceFile) :
      (⟨Loader.withCapacity capacity {}, log, files⟩ : Session).readType (.ofKeywords text) .armor =
        ⟨Loader.withCapacity capacity {}, log, files⟩ := by
    simp only [readType, Loader.discover_withCapacity, Loader.discover_ofKeywords_armor]
    rfl
  rw [readAll, RecordType.inOrder, List.foldl_cons, List.foldl_cons, List.foldl_nil, keywords,
    readPath, loaded]
  exact armors _ _

end OfKeywords

/-- The standard capacity shows three faults of a file; the capacity one shows the last of them, and
makes no other difference. -/
theorem irrelevance_of_standard_capacity :
    1 ≤ 10000 ∧
    Session.Alike 1
      ((Session.start (Loader.withCapacity 1 {})).run (.ofKeywords "a b; a b; a b;") .empty)
      ((Session.start (Loader.withCapacity 10000 {})).run (.ofKeywords "a b; a b; a b;") .empty) ∧
    ((Session.start (Loader.withCapacity 10000 {})).run (.ofKeywords "a b; a b; a b;")
      .empty).1.log.retained.length = 3 := by
  refine ⟨by decide, irrelevance_of_capacity.1 _ {} .empty 1 10000 (by decide), ?_⟩
  rw [Session.run, Session.readAll_ofKeywords]
  decide +kernel

end FormPatch
