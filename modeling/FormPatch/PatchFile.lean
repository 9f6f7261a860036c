import FormPatch.Armor.Application
import FormPatch.Keyword.Patch
import FormPatch.Statement.Printer
import FormPatch.Statement.Reader

/-!
# Patch files

A file holds statements of one record type. A fault in an armor file ends its reading; in a
keyword file it costs one statement.
-/

namespace FormPatch

open Syntax

/-- The statements of one file. -/
inductive PatchFile where
  /-- Armor statements. -/
  | armor (statements : List (Statement ArmorPatch))
  /-- Keyword statements. -/
  | keyword (statements : List (Statement KeywordPatch))

namespace RecordType

/-- The record types in the order in which their files are read and applied. -/
def inOrder : List RecordType := [keyword, armor]

/-- What happens after a fault in a file of this record type. -/
def recovery : RecordType → Recovery
  | armor => .abort
  | keyword => .resume

end RecordType

namespace PatchFile

/-- The record type of the statements. -/
def type : PatchFile → RecordType
  | armor _ => .armor
  | keyword _ => .keyword

/-- The number of statements outside all blocks. -/
def size : PatchFile → Nat
  | armor statements => statements.length
  | keyword statements => statements.length

/-- Reads a text as a file of a record type; answers the faults too. -/
def read (type : RecordType) (recovery : Recovery) (source : String) :
    PatchFile × List Located :=
  match type with
  | .armor =>
    let reading := Reading.ofText ArmorPatch.grammar recovery source
    (armor reading.statements, reading.faults)
  | .keyword =>
    let reading := Reading.ofText KeywordPatch.grammar recovery source
    (keyword reading.statements, reading.faults)

/-- Reads a text as a file of a record type, with the recovery of that type; answers what is to be
reported too. -/
def ofText (type : RecordType) (source : String) : PatchFile × List Diagnostic :=
  let (file, faults) := read type type.recovery source
  (file, faults.map Diagnostic.ofFault)

/-- The text of a file. -/
def text : PatchFile → String
  | armor statements => ArmorPatch.grammar.fileText statements
  | keyword statements => KeywordPatch.grammar.fileText statements

/-- Applies a file to a store. -/
def apply : PatchFile → Store → Applied
  | armor statements => applyAll ArmorPatch.apply statements
  | keyword statements => applyAll KeywordPatch.apply statements

/-- Whether two files are of one type and hold the same statements. -/
def alike : PatchFile → PatchFile → Bool
  | armor left, armor right => alikeAll left right
  | keyword left, keyword right => alikeAll left right
  | _, _ => false

/-- Whether the text of a file reads as that file again, without a fault. -/
def reads (recovery : Recovery) (file : PatchFile) : Bool :=
  let (again, faults) := read file.type recovery file.text
  faults.isEmpty && again.alike file

end PatchFile

end FormPatch
