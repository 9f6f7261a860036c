import FormPatch.Loader
import FormPatch.PatchFile

/-!
# Sessions

A session reads configuration files and then applies them. All files of one record type are
applied before those of the next, in the order in which they were read. A file that fails never
stops the others, and what is logged while a file is read or applied is about that file.
-/

namespace FormPatch

/-- A file that was read. -/
structure SourceFile where
  /-- Where it lies. -/
  path : Path
  /-- What was read. -/
  patches : PatchFile

/-- The files that were read and what was logged. -/
structure Session where
  /-- Where files lie. -/
  loader : Loader
  /-- The log. -/
  log : Log
  /-- The files, in the order in which they were read. -/
  files : List SourceFile

/-- The numbers that a session ends with. -/
structure Summary where
  /-- Files read. -/
  files : Nat
  /-- Statements outside all blocks. -/
  statements : Nat
  /-- Warnings logged. -/
  warnings : Nat
  /-- Errors logged. -/
  errors : Nat
  /-- Critical diagnostics logged. -/
  critical : Nat
deriving DecidableEq, Repr

/-- The written form of a summary. -/
def Summary.text (summary : Summary) : String :=
  s!"{summary.files} file(s), {summary.statements} statement(s): " ++
    s!"{summary.warnings} warning(s), {summary.errors} error(s), {summary.critical} critical"

/-- Reads a file of a record type. A file that cannot be read holds nothing, and a warning says
so. -/
def PatchFile.load (tree : FileTree) (type : RecordType) (path : Path) :
    PatchFile × List Diagnostic :=
  match tree.readText path with
  | .ok source => ofText type source
  | .error fault =>
    let report : Diagnostic :=
      { severity := .warning, message := s!"failed to read {path.text}: {fault.message}" }
    ((ofText type "").1, [report])

namespace Session

/-- A session in which nothing was read. -/
def start (loader : Loader) : Session := ⟨loader, loader.log, []⟩

/-- Reads a file. -/
def readPath (tree : FileTree) (session : Session) (type : RecordType) (path : Path) : Session :=
  let (patches, reports) := PatchFile.load tree type path
  { session with
    log := ((session.log.about (some path)).pushAll reports).about none
    files := session.files ++ [⟨path, patches⟩] }

/-- Reads every file of a record type. What the search for them reported is logged first. -/
def readType (tree : FileTree) (session : Session) (type : RecordType) : Session :=
  let found := session.loader.discover tree type
  found.files.foldl (fun session path => session.readPath tree type path)
    { session with log := session.log.pushAll found.reports }

/-- Reads every file. -/
def readAll (tree : FileTree) (session : Session) : Session :=
  RecordType.inOrder.foldl (fun session type => session.readType tree type) session

/-- Applies a file that was read. -/
def applyFile (state : Log × Store) (file : SourceFile) : Log × Store :=
  let applied := file.patches.apply state.2
  ((state.1.about (some file.path)).pushAll applied.reports, applied.store)

/-- The files in the order in which they are applied. -/
def inOrder (session : Session) : List SourceFile :=
  RecordType.inOrder.flatMap fun type =>
    session.files.filter fun file => file.patches.type == type

/-- Applies every file that was read. -/
def applyAll (session : Session) (store : Store) : Session × Store :=
  let (log, after) := session.inOrder.foldl applyFile (session.log, store)
  ({ session with log := log.about none }, after)

/-- Reads every file and applies what was read. -/
def run (tree : FileTree) (session : Session) (store : Store) : Session × Store :=
  (session.readAll tree).applyAll store

/-- The numbers of a session. -/
def summary (session : Session) : Summary where
  files := session.files.length
  statements := session.files.foldl (fun total file => total + file.patches.size) 0
  warnings := session.log.count .warning
  errors := session.log.count .error
  critical := session.log.count .critical

end Session

end FormPatch
