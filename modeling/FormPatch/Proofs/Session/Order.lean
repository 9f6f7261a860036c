import FormPatch.Proofs.Application.Independence
import FormPatch.Session

/-!
# The order of record types

A session takes the record types one after the other, first to read their files and then to apply
them. Main statement: with either type first, a session leads to one store and one summary, and the
files of each type log the same, in the same order; only the blocks of the types trade places.
-/

namespace FormPatch

/-- Both record types, one of them first. -/
def RecordType.startingWith : RecordType → List RecordType
  | keyword => [keyword, armor]
  | armor => [armor, keyword]

/-- Whichever type comes first, both are there. -/
theorem RecordType.startingWith_perm (first : RecordType) :
    (startingWith first).Perm inOrder := by
  cases first with
  | keyword => exact .refl _
  | armor => exact .swap _ _ _

namespace Log

/-- A diagnostic while a file is worked on: it is about that file unless it is about another. -/
def filed (file : Option Path) (diagnostic : Diagnostic) : Diagnostic :=
  ({ current := file } : Log).tag diagnostic

/-- The log with further entries behind its own. -/
def extend (log : Log) (entries : List Diagnostic) : Log :=
  ⟨log.capacity, entries.reverse ++ log.history, log.current⟩

/-- Without further entries a log stays. -/
theorem extend_nil (log : Log) : log.extend [] = log := rfl

/-- Adding entries twice is adding all of them once. -/
theorem extend_extend (log : Log) (front behind : List Diagnostic) :
    (log.extend front).extend behind = log.extend (front ++ behind) := by
  simp only [extend, List.reverse_append, List.append_assoc]

/-- Added entries stand behind everything that was logged. -/
theorem everything_extend (log : Log) (entries : List Diagnostic) :
    (log.extend entries).everything = log.everything ++ entries := by
  simp only [everything, extend, List.reverse_append, List.reverse_reverse]

/-- What is logged stands behind what was, about the current file. -/
theorem pushAll_eq (log : Log) (diagnostics : List Diagnostic) :
    log.pushAll diagnostics = log.extend (diagnostics.map (filed log.current)) := by
  induction diagnostics generalizing log with
  | nil => rfl
  | cons diagnostic diagnostics ih =>
    have rest : log.pushAll (diagnostic :: diagnostics) =
        (log.push diagnostic).pushAll diagnostics := rfl
    have pushed : log.push diagnostic = log.extend [filed log.current diagnostic] := rfl
    rw [rest, ih, pushed, extend_extend]
    rfl

end Log

/-- Applies a file; what it reports is about the file. -/
def SourceFile.apply (file : SourceFile) (store : Store) : Applied :=
  let applied := file.patches.apply store
  { applied with reports := applied.reports.map (Log.filed (some file.path)) }

/-- Changing the reports of a run does not change what it looks at. -/
theorem Confined.relabel {β γ : Type} {part : Form → β} {other : Form → γ} {run : Store → Applied}
    (confined : Confined part other run) (label : List Diagnostic → List Diagnostic) :
    Confined part other fun store => { run store with reports := label (run store).reports } := by
  refine ⟨fun left right same => ?_, confined.keeps⟩
  obtain ⟨⟨reports, opened⟩, view⟩ := confined.alike left right same
  exact ⟨⟨congrArg label reports, opened⟩, view⟩

namespace Session

/-- The session with more entries in its log and more files, behind its own. -/
def extend (session : Session) (entries : List Diagnostic) (files : List SourceFile) : Session :=
  { session with log := session.log.extend entries, files := session.files ++ files }

/-- Without further entries and files a session stays. -/
theorem extend_nil (session : Session) : session.extend [] [] = session := by
  simp only [extend, Log.extend_nil, List.append_nil]

/-- Adding entries and files twice is adding all of them once. -/
theorem extend_extend (session : Session) (entries entries' : List Diagnostic)
    (files files' : List SourceFile) :
    (session.extend entries files).extend entries' files' =
      session.extend (entries ++ entries') (files ++ files') := by
  simp only [extend, Log.extend_extend, List.append_assoc]

/-- The files of a record type that were read. -/
def filesOf (session : Session) (type : RecordType) : List SourceFile :=
  session.files.filter fun file => file.patches.type == type

/-- What the files of a record type do to a store. -/
def change (session : Session) (type : RecordType) : Store → Applied :=
  Applied.forEach (session.filesOf type) SourceFile.apply

/-- Reads every file, with the record types in a given order. -/
def readIn (order : List RecordType) (tree : FileTree) (session : Session) : Session :=
  order.foldl (fun session type => session.readType tree type) session

/-- Applies every file that was read, with the record types in a given order. -/
def applyIn (order : List RecordType) (session : Session) (store : Store) : Session × Store :=
  let (log, after) := (order.flatMap session.filesOf).foldl applyFile (session.log, store)
  ({ session with log := log.about none }, after)

/-- Reads every file and applies what was read, with the record types in a given order. -/
def runIn (order : List RecordType) (tree : FileTree) (session : Session) (store : Store) :
    Session × Store :=
  (session.readIn order tree).applyIn order store

/-- Files are applied with the record types in their order. -/
theorem applyIn_inOrder (session : Session) (store : Store) :
    session.applyIn RecordType.inOrder store = session.applyAll store :=
  rfl

/-- A session takes the record types in their order. -/
theorem runIn_inOrder (tree : FileTree) (session : Session) (store : Store) :
    session.runIn RecordType.inOrder tree store = session.run tree store :=
  rfl

/-- A result of a session does not depend on the order of record types: with either type first it
has the store and the summary that it has, and each type logs the same, read and applied. -/
structure IgnoresOrder (run : List RecordType → Session × Store) (actual : Session × Store) :
    Prop where
  /-- The result is that of the types in their order. -/
  inOrder : run RecordType.inOrder = actual
  /-- With either type first there is one store. -/
  store : ∀ first, (run (RecordType.startingWith first)).2 = actual.2
  /-- With either type first there is one summary. -/
  summary : ∀ first, (run (RecordType.startingWith first)).1.summary = actual.1.summary
  /-- Each type logs a block when it is read and one when it is applied; the order of types is the
  order of blocks. -/
  logged : ∃ (before : List Diagnostic) (read applied : RecordType → List Diagnostic), ∀ first,
    (run (RecordType.startingWith first)).1.log.everything =
      before ++ (RecordType.startingWith first).flatMap read ++
        (RecordType.startingWith first).flatMap applied

section Applying

/-- Applying a file logs what is about it. -/
theorem applyFile_eq (log : Log) (store : Store) (file : SourceFile) :
    applyFile (log, store) file =
      ((log.about (some file.path)).extend (file.apply store).reports,
        (file.apply store).store) := by
  simp only [applyFile, Log.pushAll_eq]
  rfl

/-- Applying files logs what they report, and the last thing is to be about none of them. -/
theorem foldl_applyFile (files : List SourceFile) (log : Log) (store : Store) :
    (files.foldl applyFile (log, store)).1.about none =
        (log.about none).extend (Applied.forEach files SourceFile.apply store).reports ∧
      (files.foldl applyFile (log, store)).2 =
        (Applied.forEach files SourceFile.apply store).store := by
  induction files generalizing log store with
  | nil => exact ⟨rfl, rfl⟩
  | cons file files ih =>
    rw [List.foldl_cons, applyFile_eq, Applied.forEach_cons]
    obtain ⟨logged, reached⟩ :=
      ih ((log.about (some file.path)).extend (file.apply store).reports) (file.apply store).store
    refine ⟨?_, reached⟩
    rw [logged]
    simp only [Applied.andThen, ← Log.extend_extend]
    rfl

/-- A keyword file looks at captions and writes to them only. -/
theorem confined_of_keyword {file : SourceFile} (type : file.patches.type = .keyword) :
    Confined Form.caption Form.record file.apply := by
  obtain ⟨path, patches⟩ := file
  cases patches with
  | armor statements => cases type
  | keyword statements => exact (KeywordPatch.confined_applyAll statements).relabel _

/-- An armor file looks at records and writes to them only. -/
theorem confined_of_armor {file : SourceFile} (type : file.patches.type = .armor) :
    Confined Form.record Form.caption file.apply := by
  obtain ⟨path, patches⟩ := file
  cases patches with
  | armor statements => exact (ArmorPatch.confined_applyAll statements).relabel _
  | keyword statements => cases type

variable (session : Session) (store : Store)

/-- The files of the two types do not interfere. -/
theorem independent_change :
    Applied.Independent (session.change .keyword) (session.change .armor) store := by
  have typed (type : RecordType) : ∀ file ∈ session.filesOf type, file.patches.type = type :=
    fun file member => beq_iff_eq.1 (List.mem_filter.1 member).2
  have keyword : Confined Form.caption Form.record (session.change .keyword) :=
    .forEach fun file member => confined_of_keyword (typed .keyword file member)
  have armor : Confined Form.record Form.caption (session.change .armor) :=
    .forEach fun file member => confined_of_armor (typed .armor file member)
  exact Confined.independent Form.injective_parts keyword armor store

/-- With either type first, each type logs what it would alone, and the store is one. -/
theorem applyIn_startingWith (first : RecordType) :
    session.applyIn (RecordType.startingWith first) store =
      ({ session with
          log := (session.log.about none).extend
            ((RecordType.startingWith first).flatMap fun type =>
              (session.change type store).reports) },
        (session.change .armor (session.change .keyword store).store).store) := by
  have apart := session.independent_change store
  obtain ⟨logged, reached⟩ := foldl_applyFile
    ((RecordType.startingWith first).flatMap session.filesOf) session.log store
  simp only [applyIn]
  rw [logged, reached]
  cases first with
  | keyword =>
    simp only [RecordType.startingWith, List.flatMap_cons, List.flatMap_nil, List.append_nil,
      Applied.forEach_append]
    have told : (session.change .armor (session.change .keyword store).store).reports =
        (session.change .armor store).reports := apart.secondTells.reports
    rw [← told]
    rfl
  | armor =>
    simp only [RecordType.startingWith, List.flatMap_cons, List.flatMap_nil, List.append_nil,
      Applied.forEach_append]
    have told : (session.change .keyword (session.change .armor store).store).reports =
        (session.change .keyword store).reports := apart.firstTells.reports
    rw [← told, apart.stores]
    rfl

end Applying

section Reading

variable (tree : FileTree) (loader : Loader)

/-- The files of a record type as they are read. -/
def filesRead (type : RecordType) : List SourceFile :=
  (loader.discover tree type).files.map fun path => ⟨path, (PatchFile.load tree type path).1⟩

/-- What reading a file logs. -/
def readReports (type : RecordType) (path : Path) : List Diagnostic :=
  (PatchFile.load tree type path).2.map (Log.filed (some path))

/-- What reading the files of a record type logs: what the search for them reports comes first. -/
def readLog (type : RecordType) : List Diagnostic :=
  (loader.discover tree type).reports.map (Log.filed none) ++
    (loader.discover tree type).files.flatMap (readReports tree type)

/-- Reading a file adds it and logs what is about it, and the last thing is to be about no file. -/
theorem readPath_eq (session : Session) (type : RecordType) (path : Path) :
    session.readPath tree type path =
      { session with
        log := (session.log.about none).extend (readReports tree type path)
        files := session.files ++ [⟨path, (PatchFile.load tree type path).1⟩] } := by
  simp only [readPath, Log.pushAll_eq, Log.about, Log.extend]
  rfl

/-- Reading some files of a record type adds them and what their reading logs. -/
theorem foldl_readPath (type : RecordType) (paths : List Path) (session : Session)
    (unset : session.log.current = none) :
    paths.foldl (fun session path => session.readPath tree type path) session =
      session.extend (paths.flatMap (readReports tree type))
        (paths.map fun path => ⟨path, (PatchFile.load tree type path).1⟩) := by
  induction paths generalizing session with
  | nil => exact session.extend_nil.symm
  | cons path paths ih =>
    have first : session.readPath tree type path =
        session.extend (readReports tree type path)
          [⟨path, (PatchFile.load tree type path).1⟩] := by
      rw [readPath_eq, Log.about, ← unset]
      rfl
    rw [List.foldl_cons, first, ih (session.extend _ _) unset, extend_extend]
    rfl

/-- Reading the files of a record type adds them and what their reading logs. -/
theorem readType_eq (type : RecordType) (session : Session) (unset : session.log.current = none) :
    session.readType tree type =
      session.extend (readLog tree session.loader type) (filesRead tree session.loader type) := by
  have searched : session.log.pushAll (session.loader.discover tree type).reports =
      session.log.extend ((session.loader.discover tree type).reports.map (Log.filed none)) := by
    rw [Log.pushAll_eq, unset]
  simp only [readType, searched]
  rw [foldl_readPath tree type _ { session with log := session.log.extend _ } unset]
  simp only [extend, Log.extend_extend]
  rfl

/-- Reading the record types in any order adds a block for each of them. -/
theorem readIn_eq (order : List RecordType) (session : Session)
    (unset : session.log.current = none) :
    session.readIn order tree =
      session.extend (order.flatMap (readLog tree session.loader))
        (order.flatMap (filesRead tree session.loader)) := by
  induction order generalizing session with
  | nil => exact session.extend_nil.symm
  | cons type order ih =>
    have rest : session.readIn (type :: order) tree =
        (session.readType tree type).readIn order tree := rfl
    rw [rest, readType_eq tree type session unset, ih (session.extend _ _) unset, extend_extend]
    rfl

/-- What is read as a file of a record type is one. -/
theorem type_load (type : RecordType) (path : Path) :
    (PatchFile.load tree type path).1.type = type := by
  have read (source : String) : (PatchFile.ofText type source).1.type = type := by
    cases type <;> rfl
  unfold PatchFile.load
  split <;> exact read _

/-- A file that is read as one of a record type is one. -/
theorem type_of_filesRead {type : RecordType} {file : SourceFile}
    (member : file ∈ filesRead tree loader type) : file.patches.type = type := by
  obtain ⟨path, _, rfl⟩ := List.mem_map.1 member
  exact type_load tree type path

/-- The files of a record type among those that were read. -/
theorem filesOf_readIn (first type : RecordType) :
    ((start loader).readIn (RecordType.startingWith first) tree).filesOf type =
      filesRead tree loader type := by
  have own : (filesRead tree loader type).filter (fun file => file.patches.type == type) =
      filesRead tree loader type :=
    List.filter_eq_self.2 fun file member => beq_iff_eq.2 (type_of_filesRead tree loader member)
  have none (other : RecordType) (apart : other ≠ type) :
      (filesRead tree loader other).filter (fun file => file.patches.type == type) = [] := by
    refine List.filter_eq_nil_iff.2 fun file member => ?_
    rw [type_of_filesRead tree loader member]
    simpa using apart
  rw [readIn_eq tree _ _ rfl]
  simp only [filesOf, extend, start, List.nil_append]
  cases first <;> cases type <;>
    simp [RecordType.startingWith, own, none]

end Reading

/-- Neither the order of the files nor that of the log makes a difference to the numbers. -/
theorem summary_congr {left right : Session} (files : left.files.Perm right.files)
    (history : left.log.history.Perm right.log.history) : left.summary = right.summary := by
  have total : left.files.foldl (fun total file => total + file.patches.size) 0 =
      right.files.foldl (fun total file => total + file.patches.size) 0 :=
    files.foldl_eq' (fun _ _ _ _ sum => Nat.add_right_comm sum _ _) 0
  simp only [summary, files.length_eq, total, Log.count, history.countP_eq]

/-- A session that is put together from blocks for the record types ignores their order. -/
theorem IgnoresOrder.of_blocks {run : List RecordType → Session × Store}
    {actual : Session × Store} (inOrder : run RecordType.inOrder = actual) (base : Session)
    (read applied : RecordType → List Diagnostic) (files : RecordType → List SourceFile)
    (after : Store)
    (blocks : ∀ first, run (RecordType.startingWith first) =
      (base.extend ((RecordType.startingWith first).flatMap read ++
          (RecordType.startingWith first).flatMap applied)
        ((RecordType.startingWith first).flatMap files), after)) :
    IgnoresOrder run actual := by
  have here : actual = (base.extend (RecordType.inOrder.flatMap read ++
      RecordType.inOrder.flatMap applied) (RecordType.inOrder.flatMap files), after) :=
    inOrder.symm.trans (blocks .keyword)
  have moved {α : Type} (block : RecordType → List α) (first : RecordType) :
      ((RecordType.startingWith first).flatMap block).Perm (RecordType.inOrder.flatMap block) :=
    (RecordType.startingWith_perm first).flatMap_right block
  refine ⟨inOrder, fun first => ?_, fun first => ?_, base.log.everything, read, applied,
    fun first => ?_⟩
  · rw [blocks first, here]
  · rw [blocks first, here]
    refine summary_congr ((moved files first).append_left _) ?_
    refine List.Perm.append_right _ ?_
    exact (List.reverse_perm _).trans
      (((moved read first).append (moved applied first)).trans (List.reverse_perm _).symm)
  · rw [blocks first, List.append_assoc]
    exact Log.everything_extend _ _

/-- Applying what was read does not depend on the order of the record types. -/
theorem ignoresOrder_applyAll (session : Session) (store : Store) :
    IgnoresOrder (fun order => session.applyIn order store) (session.applyAll store) := by
  refine .of_blocks (session.applyIn_inOrder store) { session with log := session.log.about none }
    (fun _ => []) (fun type => (session.change type store).reports) (fun _ => [])
    (session.change .armor (session.change .keyword store).store).store fun first => ?_
  have none {α : Type} : (RecordType.startingWith first).flatMap (fun _ => ([] : List α)) = [] := by
    cases first <;> rfl
  simp only [applyIn_startingWith, extend, none, List.append_nil, List.nil_append]

/-- A session does not depend on the order of the record types. -/
theorem ignoresOrder_run (loader : Loader) (tree : FileTree) (store : Store) :
    IgnoresOrder (fun order => (start loader).runIn order tree store)
      ((start loader).run tree store) := by
  let read := (start loader).readIn RecordType.inOrder tree
  refine .of_blocks (runIn_inOrder tree _ store) (start loader) (readLog tree loader)
    (fun type => (read.change type store).reports) (filesRead tree loader)
    (read.change .armor (read.change .keyword store).store).store fun first => ?_
  have same (type : RecordType) :
      ((start loader).readIn (RecordType.startingWith first) tree).change type =
        read.change type := by
    have keywordsFirst : RecordType.inOrder = RecordType.startingWith .keyword := rfl
    simp only [change, read, keywordsFirst, filesOf_readIn]
  simp only [runIn, applyIn_startingWith, same]
  rw [readIn_eq tree _ _ rfl]
  simp only [extend, ← Log.extend_extend]
  rfl

end Session

/-- Keyword trees and armor trees do not interfere, and so neither the files of a session nor the
session itself depend on which record type comes first. -/
theorem independence_of_types :
    (∀ (store : Store) (keywords : List (Statement KeywordPatch))
      (armors : List (Statement ArmorPatch)),
      Applied.Independent (applyAll KeywordPatch.apply keywords) (applyAll ArmorPatch.apply armors)
        store) ∧
    (∀ (session : Session) (store : Store),
      Session.IgnoresOrder (fun order => session.applyIn order store) (session.applyAll store)) ∧
    ∀ (loader : Loader) (tree : FileTree) (store : Store),
      Session.IgnoresOrder (fun order => (Session.start loader).runIn order tree store)
        ((Session.start loader).run tree store) :=
  ⟨fun store keywords armors =>
      Confined.independent Form.injective_parts (KeywordPatch.confined_applyAll keywords)
        (ArmorPatch.confined_applyAll armors) store,
    Session.ignoresOrder_applyAll, Session.ignoresOrder_run⟩

end FormPatch
