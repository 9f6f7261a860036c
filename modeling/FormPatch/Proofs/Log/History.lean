import FormPatch.Proofs.Log.Buffer
import Mathlib.Data.List.Basic
import Mathlib.Data.List.Induction

/-!
# Histories of a log

A log is told which file is worked on, and diagnostics, messages and failures are logged, in any
order. Each of them is entered once, about its own file or else about the file that was set last.

Main statement: whatever was done to a log, what it shows is the end of all that was entered, as
long as its capacity allows, and it has counted everything by its severity. A buffer that drops what
does not fit as it goes on shows and counts the same.
-/

namespace FormPatch

namespace Diagnostic

/-- The diagnostic for a failure has the severity that was given. -/
theorem severity_ofFailure (severity : Severity) (failure : Failure) (context : Option Context) :
    (ofFailure severity failure context).severity = severity := by
  cases context <;> rfl

/-- The diagnostic for a failure is about the file of its context. -/
theorem file_ofFailure (severity : Severity) (failure : Failure) (context : Option Context) :
    (ofFailure severity failure context).file = context.bind Context.file := by
  cases context <;> rfl

end Diagnostic

namespace Log

/-- What is asked of a log. -/
inductive Command where
  /-- What follows is about a file, or about none. -/
  | about (file : Option Path)
  /-- A diagnostic is logged. -/
  | push (diagnostic : Diagnostic)
  /-- A message is logged as a warning. -/
  | warn (message : String)
  /-- A failure is logged, with what was worked on when it happened. -/
  | report (severity : Severity) (failure : Failure) (context : Option Context)

namespace Command

/-- The log behind a command. -/
def run : Command → Log → Log
  | about file, log => log.about file
  | push diagnostic, log => log.push diagnostic
  | warn message, log => log.warn message
  | report severity failure context, log => log.push (.ofFailure severity failure context)

/-- The file that a command sets, if it sets one. -/
def file? : Command → Option (Option Path)
  | about file => some file
  | push _ => none
  | warn _ => none
  | report _ _ _ => none

/-- What a command logs. -/
def diagnostic? : Command → Option Diagnostic
  | about _ => none
  | push diagnostic => some diagnostic
  | warn message => some { severity := .warning, message }
  | report severity failure context => some (.ofFailure severity failure context)

/-- The severity of what a command logs. -/
def severity? : Command → Option Severity
  | about _ => none
  | push diagnostic => some diagnostic.severity
  | warn _ => some .warning
  | report severity _ _ => some severity

/-- The file that what a command logs is about by itself. -/
def ownFile : Command → Option Path
  | about _ => none
  | push diagnostic => diagnostic.file
  | warn _ => none
  | report _ _ context => context.bind Context.file

/-- What a command enters while a file is worked on. -/
def enters? (command : Command) (current : Option Path) : Option Diagnostic :=
  command.diagnostic?.map fun diagnostic =>
    { diagnostic with file := command.ownFile.or current }

/-- A command as a call. -/
def call : Command → Call
  | about file => .about file
  | push diagnostic => .push diagnostic
  | warn message => .push { severity := .warning, message }
  | report severity failure context => .push (.ofFailure severity failure context)

/-- What a command enters has the severity of the command. -/
theorem severity_enters? (command : Command) (current : Option Path) :
    (command.enters? current).map Diagnostic.severity = command.severity? := by
  cases command with
  | about file => rfl
  | push diagnostic => rfl
  | warn message => rfl
  | report severity failure context =>
    exact congrArg some (Diagnostic.severity_ofFailure severity failure context)

end Command

/-- Runs commands in order. -/
def runAll (log : Log) (commands : List Command) : Log :=
  commands.foldl (fun log command => command.run log) log

/-- The file that is worked on behind commands: the one that was set last. -/
def currentBehind (commands : List Command) : Option Path :=
  (commands.filterMap Command.file?).getLast?.join

/-- All that commands enter, each under the file that those in front of it have left. -/
def entered (commands : List Command) : List Diagnostic :=
  commands.zipIdx.filterMap fun numbered =>
    numbered.1.enters? (currentBehind (commands.take numbered.2))

/-- A diagnostic is kept about its own file or else about the current one. -/
theorem tag_eq (log : Log) (diagnostic : Diagnostic) :
    log.tag diagnostic = { diagnostic with file := diagnostic.file.or log.current } := by
  obtain ⟨severity, file, position, message⟩ := diagnostic
  cases file <;> rfl

/-- A command enters at most one diagnostic, behind all others. -/
theorem everything_run (command : Command) (log : Log) :
    (command.run log).everything = log.everything ++ (command.enters? log.current).toList := by
  have pushed (diagnostic : Diagnostic) : (log.push diagnostic).everything =
      log.everything ++ [{ diagnostic with file := diagnostic.file.or log.current }] := by
    rw [everything, history_push, tag_eq]
    exact List.reverse_cons
  cases command with
  | about file => exact (List.append_nil _).symm
  | push diagnostic => exact pushed diagnostic
  | warn message => exact pushed { severity := .warning, message }
  | report severity failure context =>
    have kept := pushed (.ofFailure severity failure context)
    rwa [Diagnostic.file_ofFailure] at kept

/-- A command that sets no file leaves the current one. -/
theorem current_run (command : Command) (log : Log) :
    (command.run log).current = command.file?.getD log.current := by
  cases command <;> rfl

/-- A command keeps the capacity. -/
theorem capacity_run (command : Command) (log : Log) :
    (command.run log).capacity = log.capacity := by
  cases command <;> rfl

/-- A last command leaves the file that it sets, or the one that was set before. -/
theorem currentBehind_append (commands : List Command) (command : Command) :
    currentBehind (commands ++ [command]) = command.file?.getD (currentBehind commands) := by
  rw [currentBehind, List.filterMap_append]
  cases command <;> simp [Command.file?, currentBehind]

/-- A command behind others enters what it enters under the file that they have left. -/
theorem entered_append (commands : List Command) (command : Command) :
    entered (commands ++ [command]) =
      entered commands ++ (command.enters? (currentBehind commands)).toList := by
  rw [entered, List.zipIdx_append, List.filterMap_append]
  congr 1
  · refine List.filterMap_congr fun ⟨other, place⟩ member => ?_
    have within : place < commands.length := (List.mem_zipIdx' member).1
    simp only [List.take_append_of_le_length (Nat.le_of_lt within)]
  · simp only [List.zipIdx_singleton, Nat.zero_add, List.filterMap_cons, List.filterMap_nil,
      List.take_left]
    cases command.enters? (currentBehind commands) <;> rfl

/-- What a run has made of a log: all of its commands' entries, the file set last, and the capacity
of the start. -/
structure Records (capacity : Nat) (commands : List Command) (log : Log) : Prop where
  /-- All that was entered. -/
  everything : log.everything = entered commands
  /-- The file that was set last. -/
  current : log.current = currentBehind commands
  /-- The capacity of the start. -/
  capacity : log.capacity = capacity

/-- What a run has made of a new log is what its commands entered, the file set last and the
capacity. -/
theorem records_runAll (capacity : Nat) (commands : List Command) :
    Records capacity commands ((ofCapacity capacity).runAll commands) := by
  induction commands using List.reverseRecOn with
  | nil => exact ⟨rfl, rfl, rfl⟩
  | append_singleton commands command ih =>
    have last : (ofCapacity capacity).runAll (commands ++ [command]) =
        command.run ((ofCapacity capacity).runAll commands) := by
      simp [runAll]
    rw [last]
    exact
      { everything := by rw [everything_run, ih.everything, ih.current, entered_append]
        current := by rw [current_run, ih.current, currentBehind_append]
        capacity := by rw [capacity_run, ih.capacity] }

/-- The severities of what was entered are those of what was logged. -/
theorem severity_entered (commands : List Command) :
    (entered commands).map Diagnostic.severity = commands.filterMap Command.severity? := by
  induction commands using List.reverseRecOn with
  | nil => rfl
  | append_singleton commands command ih =>
    have last := command.severity_enters? (currentBehind commands)
    rw [entered_append, List.map_append, ih, List.filterMap_append, List.filterMap_cons,
      List.filterMap_nil, ← last]
    cases command.enters? (currentBehind commands) <;> rfl

/-- Everything has one of three severities. -/
theorem count_severities (severities : List Severity) :
    severities.count .warning + severities.count .error + severities.count .critical =
      severities.length := by
  induction severities with
  | nil => rfl
  | cons severity others ih =>
    simp only [List.count_cons, List.length_cons]
    cases severity <;> simp <;> omega

/-- Commands are calls to the log. -/
theorem runAll_eq_perform (commands : List Command) (log : Log) :
    log.runAll commands = log.perform (commands.map Command.call) := by
  rw [perform, List.foldl_map]
  refine List.foldl_ext _ _ _ fun log command _ => ?_
  cases command <;> rfl

/-- Whatever is asked of a new log, as many diagnostics are entered as were logged. The log shows
the end of them, as many as its capacity allows, each about its own file or else about the file that
was set last when it was logged. It has counted how many were logged of each severity, and the three
counts add up to all of them. A buffer that drops what does not fit as it goes on ends up with the
same. -/
theorem history_of_logs (capacity : Nat) (commands : List Command) :
    (entered commands).length = (commands.filterMap Command.severity?).length ∧
    ((ofCapacity capacity).runAll commands).retained <:+ entered commands ∧
    ((ofCapacity capacity).runAll commands).retained.length =
      min capacity (commands.filterMap Command.severity?).length ∧
    (∀ severity, ((ofCapacity capacity).runAll commands).count severity =
      (commands.filterMap Command.severity?).count severity) ∧
    ((ofCapacity capacity).runAll commands).count .warning +
        ((ofCapacity capacity).runAll commands).count .error +
        ((ofCapacity capacity).runAll commands).count .critical =
      (commands.filterMap Command.severity?).length ∧
    ((ofCapacity capacity).runAll commands).buffer =
      (Buffer.ofCapacity capacity).perform (commands.map Command.call) := by
  have records := records_runAll capacity commands
  have kept := runAll_eq_perform commands (ofCapacity capacity)
  generalize (ofCapacity capacity).runAll commands = log at records kept ⊢
  have number : (entered commands).length = (commands.filterMap Command.severity?).length := by
    rw [← severity_entered, List.length_map]
  have shown : log.retained = lastOf capacity (entered commands) := by
    rw [retained_eq, records.everything, records.capacity]
  have counted (severity : Severity) :
      log.count severity = (commands.filterMap Command.severity?).count severity := by
    rw [← severity_entered, ← records.everything, count, everything, List.map_reverse,
      List.count_reverse, List.count_eq_countP, List.countP_map]
    rfl
  refine ⟨number, ?_, ?_, counted, ?_, ?_⟩
  · rw [shown]
    exact List.drop_suffix _ _
  · rw [shown, lastOf, List.length_drop, number]
    omega
  · rw [counted, counted, counted, count_severities]
  · rw [kept, buffer_perform, buffer_ofCapacity]

end Log

end FormPatch
