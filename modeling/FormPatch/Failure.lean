import FormPatch.Path
import FormPatch.Syntax.Fault

/-!
# Failures

Everything that can go wrong while configuration files are read and applied, with its wording.
-/

namespace FormPatch

/-- Why something could not be done. -/
inductive Failure where
  /-- A configuration text breaks the grammar. -/
  | parse (message : String) (position : Position)
  /-- A form reference leads to no live form. -/
  | unknownForm (form : String)
  /-- A form has another record type than the operation needs. -/
  | wrongType (form expected actual : String)
  /-- A value lies outside its range. -/
  | outOfRange (what value : String) (least greatest : Int)
  /-- The file system refused. -/
  | inputOutput (message : String)
  /-- A snapshot could not be read or written. -/
  | serialization (message : String)
  /-- A structure is broken that the program itself should keep whole. -/
  | inconsistent (message : String)
deriving DecidableEq, Repr

namespace Failure

/-- The wording of a failure. -/
def message : Failure → String
  | parse message position => s!"Line {position.line}, Col {position.column}: {message}"
  | unknownForm form => s!"form not found: {form}"
  | wrongType form expected actual => s!"form {form} is a {actual}, expected {expected}"
  | outOfRange what value least greatest =>
    s!"{what} {value} out of range [{least}, {greatest}]"
  | inputOutput message => s!"I/O error: {message}"
  | serialization message => s!"serialization error: {message}"
  | inconsistent message => s!"internal error: {message}"

/-- The place of a failure in a configuration text, if it has one. -/
def position : Failure → Option Position
  | parse _ position => some position
  | _ => none

/-- The failure that a syntax fault is. -/
def ofFault (error : Syntax.Located) : Failure :=
  parse error.fault.message error.position

end Failure

/-- What was being worked on when something failed. -/
structure Context where
  /-- The name of the record type whose statements were read or applied. -/
  recordType : Option String := none
  /-- The configuration file. -/
  file : Option Path := none
deriving Repr

namespace Context

/-- The written form: the record type in brackets, then the file. -/
def text (context : Context) : String :=
  " ".intercalate
    ((context.recordType.map fun name => s!"[{name}]").toList ++
      (context.file.map Path.text).toList)

end Context

end FormPatch
