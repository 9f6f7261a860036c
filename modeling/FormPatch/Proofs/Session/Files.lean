import Mathlib.Data.List.Forall2
import FormPatch.Proofs.Discovery.Trees
import FormPatch.Proofs.Session.Order
import FormPatch.Proofs.Statement.Reading

/-!
# The files of a session

A session reads files that are asked for one after the other, of any types in any order, and then
applies them. Each file is read from its own content only; a file that cannot be read holds nothing
and is reported once. What is applied is what was asked for, keywords before armors, so only the
order within each record type counts. Everything that is logged while a file is read or applied is
about that file, because no report names a file of its own.
-/

namespace FormPatch

/-- Whether reports name no file, so that they are about the one that is worked on. -/
def Unfiled (reports : List Diagnostic) : Prop := ∀ report ∈ reports, report.file = none

section Reports

/-- No reports name no file. -/
theorem unfiled_nil : Unfiled [] := by simp [Unfiled]

/-- Reports name no file when neither those in front nor those behind do. -/
theorem Unfiled.append {front behind : List Diagnostic} (first : Unfiled front)
    (second : Unfiled behind) : Unfiled (front ++ behind) :=
  List.forall_mem_append.2 ⟨first, second⟩

/-- Reports that name no file are about the file that is worked on. -/
theorem Unfiled.filed {reports : List Diagnostic} (unfiled : Unfiled reports) (path : Path) :
    ∀ report ∈ reports.map (Log.filed (some path)), report.file = some path := by
  refine List.forall_mem_map.2 fun report member => ?_
  simp only [Log.filed, Log.tag, unfiled report member]

/-- What a guard reports names no file. -/
theorem Guard.unfiled_evaluate (guard : Guard) (host : Host) : Unfiled (guard.evaluate host).2 := by
  unfold evaluate
  split
  · exact unfiled_nil
  · simp [Unfiled, report, Diagnostic.ofFailure]

/-- The context of a refusal names a record type and no file. -/
theorem Applied.unfiled_refused (store : Store) (type : RecordType) (failure : Failure)
    (opened : List FormReference) : Unfiled (refused store type failure opened).reports := by
  simp [Unfiled, refused, Diagnostic.ofFailure]

/-- Runs in a row name no file when none of them does. -/
theorem Applied.unfiled_forEach {α : Type} {items : List α} {step : α → Store → Applied}
    (each : ∀ item store, Unfiled (step item store).reports) (store : Store) :
    Unfiled (forEach items step store).reports := by
  induction items generalizing store with
  | nil => exact unfiled_nil
  | cons item items ih =>
    rw [forEach_cons]
    exact (each item store).append (ih _)

/-- An edit of an armor names no file in what it reports. -/
theorem ArmorOperation.unfiled_apply (target : FormReference) (operation : ArmorOperation)
    (store : Store) : Unfiled (operation.apply target store).reports := by
  rcases operation.apply_cases target store with
    ⟨failure, opened, refused⟩ | ⟨_, _, _, _, _, _, applied⟩
  · rw [refused]
    exact Applied.unfiled_refused _ _ _ _
  · rw [applied]
    exact unfiled_nil

/-- An armor patch names no file in what it reports. -/
theorem ArmorPatch.unfiled_apply (patch : ArmorPatch) (store : Store) :
    Unfiled (patch.apply store).reports := by
  unfold apply
  split
  · exact Applied.unfiled_refused _ _ _ _
  · exact Applied.unfiled_forEach
      (fun target => Applied.unfiled_forEach fun operation => operation.unfiled_apply target) store

/-- A keyword patch names no file in what it reports. -/
theorem KeywordPatch.unfiled_apply (patch : KeywordPatch) (store : Store) :
    Unfiled (patch.apply store).reports := by
  rcases patch.apply_cases store with ⟨failure, refused⟩ | ⟨_, _, _, applied⟩
  · rw [refused]
    exact Applied.unfiled_refused _ _ _ _
  · rw [applied]
    exact unfiled_nil

/-- What stands behind a guard names no file when neither of its ways does. -/
theorem Applied.unfiled_guarded {here behind : Store → Applied} {guard : Guard} {store : Store}
    (first : Unfiled (here store).reports) (second : Unfiled (behind store).reports) :
    Unfiled ((⟨store, (guard.evaluate store.host).2, []⟩ : Applied).andThen
      (if (guard.evaluate store.host).1 then here else behind)).reports := by
  refine (guard.unfiled_evaluate store.host).append ?_
  by_cases holds : (guard.evaluate store.host).1 = true
  · rwa [if_pos holds]
  · rwa [if_neg holds]

section Tree

variable {α : Type} {patch : α → Store → Applied}

mutual

/-- Applying a statement names no file when applying an expression names none. -/
theorem Statement.unfiled_apply (each : ∀ payload store, Unfiled (patch payload store).reports)
    (statement : Statement α) (store : Store) : Unfiled (statement.apply patch store).reports := by
  cases statement with
  | expression payload => exact each payload store
  | conditional guard body otherwise =>
    exact Applied.unfiled_guarded (unfiled_applyAll each body store)
      (Otherwise.unfiled_apply each otherwise store)

/-- Applying statements names no file when applying an expression names none. -/
theorem unfiled_applyAll (each : ∀ payload store, Unfiled (patch payload store).reports)
    (statements : List (Statement α)) (store : Store) :
    Unfiled (applyAll patch statements store).reports := by
  cases statements with
  | nil => exact unfiled_nil
  | cons statement rest =>
    exact (Statement.unfiled_apply each statement store).append (unfiled_applyAll each rest _)

/-- Applying a chain names no file when applying an expression names none. -/
theorem Otherwise.unfiled_apply (each : ∀ payload store, Unfiled (patch payload store).reports)
    (otherwise : Otherwise α) (store : Store) : Unfiled (otherwise.apply patch store).reports := by
  cases otherwise with
  | nothing => exact unfiled_nil
  | block body => exact unfiled_applyAll each body store
  | branch guard body otherwise =>
    exact Applied.unfiled_guarded (unfiled_applyAll each body store)
      (Otherwise.unfiled_apply each otherwise store)

end

end Tree

/-- Applying a file names no file. -/
theorem PatchFile.unfiled_apply (patches : PatchFile) (store : Store) :
    Unfiled (patches.apply store).reports := by
  cases patches with
  | armor statements => exact unfiled_applyAll ArmorPatch.unfiled_apply statements store
  | keyword statements => exact unfiled_applyAll KeywordPatch.unfiled_apply statements store

/-- Reading a text names no file. -/
theorem PatchFile.unfiled_ofText (type : RecordType) (source : String) :
    Unfiled (ofText type source).2 :=
  List.forall_mem_map.2 fun _ _ => rfl

end Reports

/-- What is reported while a file is applied is about that file. -/
theorem SourceFile.filed_apply (file : SourceFile) (store : Store) :
    ∀ report ∈ (file.apply store).reports, report.file = some file.path :=
  (file.patches.unfiled_apply store).filed file.path

/-- Whether a log goes on with diagnostics about a file. -/
def Log.Continues (path : Path) (log later : Log) : Prop :=
  ∃ entries, later.everything = log.everything ++ entries ∧
    ∀ report ∈ entries, report.file = some path

/-- A file without statements. -/
def PatchFile.blank : RecordType → PatchFile
  | .armor => .armor []
  | .keyword => .keyword []

/-- An empty text holds no statements and no faults. -/
theorem PatchFile.ofText_empty (type : RecordType) : ofText type "" = (blank type, []) := by
  have none {α : Type} (grammar : Grammar α) (recovery : Syntax.Recovery) :
      Reading.ofText grammar recovery "" = ⟨[], []⟩ := by
    refine Reading.ofCursor_end ?_
    rw [tokenize, String.toList_empty, Piece.split, Piece.locate]
    rfl
  cases type <;> simp only [ofText, read, none, blank, List.map_nil]

/-- A request to read a file as one of a record type. -/
structure Request where
  /-- The record type. -/
  type : RecordType
  /-- Where the file lies. -/
  path : Path
deriving DecidableEq

/-- What reading a file comes to, which its own content decides: the file and what is logged. -/
inductive Request.Reads (tree : FileTree) (request : Request) : SourceFile → List Diagnostic → Prop
  /-- The statements of a text, and the faults in it. -/
  | text {source : String} (readable : tree.readText request.path = .ok source) :
    Reads tree request ⟨request.path, (PatchFile.ofText request.type source).1⟩
      ((PatchFile.ofText request.type source).2.map (Log.filed (some request.path)))
  /-- Nothing, and one warning. -/
  | nothing {fault : FileFault} (unreadable : tree.readText request.path = .error fault) :
    Reads tree request ⟨request.path, .blank request.type⟩
      [⟨.warning, some request.path, none,
        s!"failed to read {request.path.text}: {fault.message}"⟩]

namespace Request

/-- What is logged while a file is read is about that file. -/
theorem Reads.filed {tree : FileTree} {request : Request} {file : SourceFile}
    {logged : List Diagnostic} (reads : request.Reads tree file logged) :
    ∀ report ∈ logged, report.file = some request.path := by
  cases reads with
  | text readable => exact (PatchFile.unfiled_ofText _ _).filed request.path
  | nothing unreadable => simp

/-- The file that a request leads to. -/
def file (tree : FileTree) (request : Request) : SourceFile :=
  ⟨request.path, (PatchFile.load tree request.type request.path).1⟩

/-- What a session reads of a file is what its content decides. -/
theorem reads_load (tree : FileTree) (request : Request) :
    request.Reads tree (request.file tree)
      (Session.readReports tree request.type request.path) := by
  unfold file Session.readReports PatchFile.load
  cases content : tree.readText request.path with
  | ok source => exact .text content
  | error fault =>
    simp only [PatchFile.ofText_empty]
    exact .nothing content

/-- The file that a request leads to is decided by what lies at its path. -/
theorem file_congr {tree other : FileTree} {request : Request}
    (same : tree.readText request.path = other.readText request.path) :
    request.file tree = request.file other := by
  simp only [file, PatchFile.load, same]

/-- The requests for one record type, in order. -/
def ofType (type : RecordType) (requests : List Request) : List Request :=
  requests.filter fun request => request.type == type

/-- Applies the files of requests in order. -/
def apply (tree : FileTree) (requests : List Request) (store : Store) : Store :=
  requests.foldl (fun store request => ((request.file tree).patches.apply store).store) store

/-- The files of a record type are those that are asked for as such. -/
theorem filter_file (tree : FileTree) (requests : List Request) (type : RecordType) :
    (requests.map (file tree)).filter (fun file => file.patches.type == type) =
      (ofType type requests).map (file tree) := by
  rw [List.filter_map]
  congr 1
  exact List.filter_congr fun request _ => by
    simp only [Function.comp_apply, file, Session.type_load]

/-- Applying the files of requests is a run of files. -/
theorem store_forEach (tree : FileTree) (requests : List Request) (store : Store) :
    (Applied.forEach (requests.map (file tree)) SourceFile.apply store).store =
      apply tree requests store := by
  induction requests generalizing store with
  | nil => rfl
  | cons request requests ih =>
    rw [List.map_cons, Applied.forEach_cons, Applied.store_andThen, ih]
    rfl

end Request

namespace Session

/-- Reads the files that are asked for, in order. -/
def readEach (tree : FileTree) (session : Session) (requests : List Request) : Session :=
  requests.foldl (fun session request => session.readPath tree request.type request.path) session

/-- Reads the files that are asked for and applies what was read. -/
def runEach (tree : FileTree) (session : Session) (requests : List Request) (store : Store) :
    Session × Store :=
  (session.readEach tree requests).applyAll store

/-- Reading files adds them, and what is about each of them. -/
theorem readEach_eq (tree : FileTree) (requests : List Request) (session : Session)
    (unset : session.log.current = none) :
    session.readEach tree requests =
      session.extend
        (requests.flatMap fun request => readReports tree request.type request.path)
        (requests.map (Request.file tree)) := by
  induction requests generalizing session with
  | nil => exact session.extend_nil.symm
  | cons request requests ih =>
    have first : session.readPath tree request.type request.path =
        session.extend (readReports tree request.type request.path) [request.file tree] := by
      rw [readPath_eq, Log.about, ← unset]
      rfl
    have rest : session.readEach tree (request :: requests) =
        (session.readPath tree request.type request.path).readEach tree requests := rfl
    rw [rest, first, ih (session.extend _ _) unset, extend_extend]
    rfl

/-- Applying what was read logs what the files report in their order. -/
theorem applyAll_eq (session : Session) (store : Store) :
    session.applyAll store =
      ({ session with
          log := (session.log.about none).extend
            (Applied.forEach session.inOrder SourceFile.apply store).reports },
        (Applied.forEach session.inOrder SourceFile.apply store).store) := by
  obtain ⟨logged, reached⟩ := foldl_applyFile session.inOrder session.log store
  simp only [applyAll, logged, reached]

/-- The files of requests are applied with the record types in their order. -/
theorem inOrder_readEach (tree : FileTree) (loader : Loader) (requests : List Request) :
    ((start loader).readEach tree requests).inOrder =
      (Request.ofType .keyword requests ++ Request.ofType .armor requests).map
        (Request.file tree) := by
  rw [readEach_eq tree requests (start loader) rfl]
  simp only [inOrder, RecordType.inOrder, List.flatMap_cons, List.flatMap_nil, List.append_nil,
    extend, start, List.nil_append, Request.filter_file, List.map_append]

/-- The store that requests lead to. -/
theorem store_runEach (tree : FileTree) (loader : Loader) (requests : List Request)
    (store : Store) :
    ((start loader).runEach tree requests store).2 =
      Request.apply tree (Request.ofType .armor requests)
        (Request.apply tree (Request.ofType .keyword requests) store) := by
  simp only [runEach, applyAll_eq, inOrder_readEach, Request.store_forEach]
  exact List.foldl_append

/-- What is logged while a file is read is about it. -/
theorem continues_readPath (tree : FileTree) (session : Session) (request : Request) :
    Log.Continues request.path session.log
      (session.readPath tree request.type request.path).log := by
  refine ⟨readReports tree request.type request.path, ?_, (request.reads_load tree).filed⟩
  rw [readPath_eq]
  exact Log.everything_extend _ _

/-- What is logged while a file is applied is about it. -/
theorem continues_applyFile (log : Log) (store : Store) (file : SourceFile) :
    Log.Continues file.path log (applyFile (log, store) file).1 := by
  refine ⟨(file.apply store).reports, ?_, file.filed_apply store⟩
  rw [applyFile_eq]
  exact Log.everything_extend _ _

/-- How a session takes the files that it is asked for. -/
structure Isolates (tree : FileTree) (loader : Loader) (requests : List Request) (store : Store) :
    Prop where
  /-- Each request leads to one file, which its own content decides, and to what that logs. -/
  reading : ∃ blocks : List (SourceFile × List Diagnostic),
    List.Forall₂ (fun request block => request.Reads tree block.1 block.2) requests blocks ∧
      ((start loader).readEach tree requests).files = blocks.map Prod.fst ∧
      ((start loader).readEach tree requests).log.everything = blocks.flatMap Prod.snd
  /-- Keywords are applied before armors, in the order in which they were asked for. -/
  applying : ((start loader).runEach tree requests store).2 =
    Request.apply tree (Request.ofType .armor requests)
      (Request.apply tree (Request.ofType .keyword requests) store)
  /-- What is logged while a file is applied stands behind what was logged before. -/
  reporting : ((start loader).runEach tree requests store).1.log.everything =
    ((start loader).readEach tree requests).log.everything ++
      (Applied.forEach ((start loader).readEach tree requests).inOrder SourceFile.apply
        store).reports
  /-- No file is worked on between the two steps and behind them. -/
  unset : ((start loader).readEach tree requests).log.current = none ∧
    ((start loader).runEach tree requests store).1.log.current = none

/-- A session takes each file for itself. -/
theorem isolates (tree : FileTree) (loader : Loader) (requests : List Request) (store : Store) :
    Isolates tree loader requests store := by
  have read := readEach_eq tree requests (start loader) rfl
  refine ⟨⟨requests.map fun request =>
      (request.file tree, readReports tree request.type request.path), ?_, ?_, ?_⟩,
    store_runEach tree loader requests store, ?_, ?_, ?_⟩
  · rw [List.forall₂_map_right_iff, List.forall₂_same]
    exact fun request _ => request.reads_load tree
  · rw [read, List.map_map]
    rfl
  · rw [read, List.flatMap_map]
    exact Log.everything_extend _ _
  · rw [runEach, applyAll_eq]
    exact Log.everything_extend _ _
  · rw [read]
    rfl
  · rw [runEach, applyAll_eq]
    rfl

end Session

/-- Files are read one by one from what lies at their paths and applied with keywords before armors;
what is logged while a file is read or applied is about it. Neither the order between record types
nor other files make a difference. -/
theorem isolation_of_files :
    (∀ (tree : FileTree) (loader : Loader) (requests : List Request) (store : Store),
      Session.Isolates tree loader requests store) ∧
    (∀ (tree : FileTree) (session : Session) (request : Request),
      Log.Continues request.path session.log
        (session.readPath tree request.type request.path).log) ∧
    (∀ (log : Log) (store : Store) (file : SourceFile),
      Log.Continues file.path log (Session.applyFile (log, store) file).1) ∧
    (∀ (tree : FileTree) (loader : Loader) (requests others : List Request) (store : Store),
      (∀ type, Request.ofType type requests = Request.ofType type others) →
      ((Session.start loader).runEach tree requests store).2 =
        ((Session.start loader).runEach tree others store).2) ∧
    ∀ (tree other : FileTree) (loader : Loader) (requests : List Request) (request : Request)
      (index : Nat),
      requests[index]? = some request →
      tree.readText request.path = other.readText request.path →
      ((Session.start loader).readEach tree requests).files[index]? =
        ((Session.start loader).readEach other requests).files[index]? := by
  refine ⟨Session.isolates, Session.continues_readPath, Session.continues_applyFile,
    fun tree loader requests others store same => ?_,
    fun tree other loader requests request index asked same => ?_⟩
  · rw [Session.store_runEach, Session.store_runEach, same, same]
  · rw [Session.readEach_eq _ _ _ rfl, Session.readEach_eq _ _ _ rfl]
    simp only [Session.extend, Session.start, List.nil_append, List.getElem?_map, asked,
      Option.map_some, Request.file_congr same]

namespace FileTree

/-- A tree with a file of armors and a file of keywords. -/
def twoFiles (armors keywords : String) : FileTree :=
  ⟨.directory [("armors", .file armors.toUTF8.data.toList),
    ("keywords", .file keywords.toUTF8.data.toList)], []⟩

variable (armors keywords : String)

/-- The file of armors holds its text, whatever the other one holds. -/
theorem readText_armors : (twoFiles armors keywords).readText ⟨"/armors"⟩ = .ok armors := by
  refine readText_of_open? (open?_of_walk ["armors"] ["armors"] (by decide) (by decide) (by decide)
    (by decide) ?_)
  simp +decide [walk, startOf, twoFiles, Entry.at?]

/-- The file of keywords holds its text, whatever the other one holds. -/
theorem readText_keywords : (twoFiles armors keywords).readText ⟨"/keywords"⟩ = .ok keywords := by
  refine readText_of_open? (open?_of_walk ["keywords"] ["keywords"] (by decide) (by decide)
    (by decide) (by decide) ?_)
  simp +decide [walk, startOf, twoFiles, Entry.at?, List.lookup_cons]

end FileTree

/-- The request for the file of armors. -/
def Request.armors : Request := ⟨.armor, ⟨"/armors"⟩⟩

/-- The request for the file of keywords. -/
def Request.keywords : Request := ⟨.keyword, ⟨"/keywords"⟩⟩

/-- The text of keywords is applied before that of armors, although it is asked for behind it. -/
theorem Session.store_runEach_twoFiles (armors keywords : String) (store : Store) :
    ((start {}).runEach (.twoFiles armors keywords) [.armors, .keywords] store).2 =
      ((PatchFile.ofText .armor armors).1.apply
        ((PatchFile.ofText .keyword keywords).1.apply store).store).store := by
  have opened : Request.armors.file (.twoFiles armors keywords) =
      ⟨⟨"/armors"⟩, (PatchFile.ofText .armor armors).1⟩ := by
    simp only [Request.file, PatchFile.load, Request.armors, FileTree.readText_armors]
  have opened' : Request.keywords.file (.twoFiles armors keywords) =
      ⟨⟨"/keywords"⟩, (PatchFile.ofText .keyword keywords).1⟩ := by
    simp only [Request.file, PatchFile.load, Request.keywords, FileTree.readText_keywords]
  rw [store_runEach]
  show ((Request.armors.file (.twoFiles armors keywords)).patches.apply
    ((Request.keywords.file (.twoFiles armors keywords)).patches.apply store).store).store = _
  rw [opened, opened']

/-- An armor and a keyword of one plugin. -/
def Store.twoForms : Store :=
  ⟨["A"], .ofList
    [(⟨"A", 1⟩, ⟨none, .armor ⟨"Cap", 1, default, default, 5, []⟩⟩),
      (⟨"A", 2⟩, ⟨some "Old", .keyword⟩)]⟩

/-- Files of which one changes the armor and the other one the keyword. -/
def FileTree.twoEdits : FileTree :=
  .twoFiles "FilterByFormID(\"A\"|1).Value = 7;" "FilterByFormID(\"A\"|2).EditorID = \"New\";"

/-- The same file of keywords beside a file of armors that cannot be parsed. -/
def FileTree.oneEdit : FileTree :=
  .twoFiles "FilterByFormID(" "FilterByFormID(\"A\"|2).EditorID = \"New\";"

/-- Two files that both change the store may be asked for in either order, and what the first one
holds makes no difference to what is read of the second one. -/
theorem isolation_of_two_files :
    ((Session.start {}).runEach .twoEdits [.armors, .keywords] .twoForms).2 =
      ((Session.start {}).runEach .twoEdits [.keywords, .armors] .twoForms).2 ∧
    ((Session.start {}).readEach .twoEdits [.armors, .keywords]).files[1]? =
      ((Session.start {}).readEach .oneEdit [.armors, .keywords]).files[1]? ∧
    ((Session.start {}).runEach .twoEdits [.armors, .keywords] .twoForms).2.forms.entries =
      [(⟨"A", 1⟩, ⟨none, .armor ⟨"Cap", 1, default, default, 7, []⟩⟩),
        (⟨"A", 2⟩, ⟨some "New", .keyword⟩)] := by
  obtain ⟨_, _, _, orders, others⟩ := isolation_of_files
  refine ⟨orders _ _ _ _ _ fun type => by cases type <;> rfl,
    others _ _ _ _ .keywords 1 rfl ?_, ?_⟩
  · exact (FileTree.readText_keywords _ _).trans (FileTree.readText_keywords _ _).symm
  · rw [FileTree.twoEdits, Session.store_runEach_twoFiles]
    decide +kernel

end FormPatch
