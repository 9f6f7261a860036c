import FormPatch.Diagnostic

/-!
# The diagnostic log

A log shows the last diagnostics up to its capacity and counts all that were ever logged. It is
the whole history, newest first; what it shows and counts are views of the history, so the
capacity can never change a count.

Main statements: what pushing does to the retained entries and to the counts.
-/

namespace FormPatch

/-- A history of diagnostics of which the last ones are shown. -/
structure Log where
  /-- How many diagnostics are shown at most. -/
  capacity : Nat := 10000
  /-- Every diagnostic ever logged, newest first. -/
  history : List Diagnostic := []
  /-- The file that diagnostics without a file are about. -/
  current : Option Path := none
deriving Repr

namespace Log

/-- An empty log. -/
def ofCapacity (capacity : Nat) : Log := ⟨capacity, [], none⟩

/-- The log with another current file. -/
def about (log : Log) (file : Option Path) : Log := ⟨log.capacity, log.history, file⟩

/-- A diagnostic without a file is about the current one. -/
def tag (log : Log) (diagnostic : Diagnostic) : Diagnostic :=
  match diagnostic.file with
  | none => { diagnostic with file := log.current }
  | some _ => diagnostic

/-- Logs a diagnostic. -/
def push (log : Log) (diagnostic : Diagnostic) : Log :=
  ⟨log.capacity, log.tag diagnostic :: log.history, log.current⟩

/-- Logs diagnostics in order. -/
def pushAll (log : Log) (diagnostics : List Diagnostic) : Log :=
  diagnostics.foldl push log

/-- Logs a warning that is no more than a message. -/
def warn (log : Log) (message : String) : Log :=
  log.push ⟨.warning, none, none, message⟩

/-- The diagnostics that are shown, oldest first. -/
def retained (log : Log) : List Diagnostic :=
  (log.history.take log.capacity).reverse

/-- Every diagnostic ever logged, oldest first. -/
def everything (log : Log) : List Diagnostic := log.history.reverse

/-- The number of diagnostics of one severity ever logged. -/
def count (log : Log) (severity : Severity) : Nat :=
  log.history.countP fun diagnostic => diagnostic.severity == severity

/-- The diagnostics shown that are about one file. -/
def about? (log : Log) (file : Path) : List Diagnostic :=
  log.retained.filter fun diagnostic => diagnostic.file.any file.same

/-- A diagnostic that is logged comes first in the history, tagged. -/
@[simp] theorem history_push (log : Log) (diagnostic : Diagnostic) :
    (log.push diagnostic).history = log.tag diagnostic :: log.history :=
  rfl

/-- Logging keeps the capacity. -/
@[simp] theorem capacity_push (log : Log) (diagnostic : Diagnostic) :
    (log.push diagnostic).capacity = log.capacity :=
  rfl

/-- Logging keeps the current file. -/
@[simp] theorem current_push (log : Log) (diagnostic : Diagnostic) :
    (log.push diagnostic).current = log.current :=
  rfl

/-- Tagging keeps the severity. -/
@[simp] theorem severity_tag (log : Log) (diagnostic : Diagnostic) :
    (log.tag diagnostic).severity = diagnostic.severity := by
  unfold tag
  split <;> rfl

/-- Pushing counts the diagnostic under its severity. -/
theorem count_push (log : Log) (diagnostic : Diagnostic) (severity : Severity) :
    (log.push diagnostic).count severity =
      log.count severity + if diagnostic.severity = severity then 1 else 0 := by
  simp [count, List.countP_cons]

end Log

end FormPatch
