import FormPatch.Failure

/-!
# Diagnostics

A diagnostic is one message for the user, with its severity and, where they are known, the file
and the place that it is about.
-/

namespace FormPatch

/-- How serious a diagnostic is. -/
inductive Severity where
  /-- Something was skipped, and work went on. -/
  | warning
  /-- A whole file or operation was given up. -/
  | error
  /-- A structure was found broken. -/
  | critical
deriving DecidableEq, Repr

/-- The word that stands before a message. -/
def Severity.name : Severity → String
  | warning => "warning"
  | error => "error"
  | critical => "critical"

/-- One message. -/
structure Diagnostic where
  /-- How serious it is. -/
  severity : Severity
  /-- The file that was being worked on. -/
  file : Option Path := none
  /-- The place in that file. -/
  position : Option Position := none
  /-- What is reported. -/
  message : String
deriving DecidableEq, Repr

namespace Diagnostic

/-- The diagnostic for a failure. The place of a failure is kept beside the message and not in it;
a record type in the context comes before the message. -/
def ofFailure (severity : Severity) (failure : Failure) (context : Option Context) : Diagnostic :=
  let message :=
    match failure with
    | .parse message _ => message
    | other => other.message
  match context with
  | none => ⟨severity, none, failure.position, message⟩
  | some context =>
    let tagged :=
      match context.recordType with
      | none => message
      | some name => s!"[{name}] {message}"
    ⟨severity, context.file, failure.position, tagged⟩

/-- The warning for a syntax fault. -/
def ofFault (error : Syntax.Located) : Diagnostic :=
  ofFailure .warning (.ofFault error) none

/-- The written form: severity, file, place and message. -/
def text (diagnostic : Diagnostic) : String :=
  let file :=
    match diagnostic.file with
    | none => ""
    | some file => s!"{file.text}: "
  let place :=
    match diagnostic.position with
    | none => ""
    | some position => s!"Line {position.line}, Col {position.column}: "
  s!"{diagnostic.severity.name}: {file}{place}{diagnostic.message}"

end Diagnostic

end FormPatch
