import FormPatch.FormReference

/-!
# Records

What the world knows about a form: an editor ID, if it has one, and a record of one of the known
types.
-/

namespace FormPatch

/-- The known record types. -/
inductive RecordType where
  /-- Armors. -/
  | armor
  /-- Keywords. -/
  | keyword
deriving DecidableEq, Repr

/-- The name of a record type. -/
def RecordType.name : RecordType → String
  | armor => "Armor"
  | keyword => "Keyword"

/-- What is known about an armor. -/
structure Armor where
  /-- The name that players see. -/
  fullName : String
  /-- The slots it occupies. -/
  slots : SlotSet
  /-- How well it protects. -/
  rating : Number.Single
  /-- How much it weighs. -/
  weight : Number.Single
  /-- What it is worth. -/
  value : UInt32
  /-- The keywords it carries, in the order they were attached. -/
  keywords : List FormReference
deriving DecidableEq, Repr

namespace Armor

/-- Whether an armor carries a keyword. -/
def hasKeyword (armor : Armor) (keyword : FormReference) : Bool :=
  armor.keywords.any keyword.same

/-- Whether two armors agree field by field, keywords as keys and numbers as values. -/
def agrees (left right : Armor) : Bool :=
  left.fullName == right.fullName && left.slots == right.slots &&
    left.rating.equals right.rating && left.weight.equals right.weight &&
    left.value == right.value &&
    left.keywords.map FormReference.key == right.keywords.map FormReference.key

end Armor

/-- What is known about a form besides its editor ID. -/
inductive Record where
  /-- An armor. -/
  | armor (armor : Armor)
  /-- A keyword, of which nothing more is known. -/
  | keyword
deriving DecidableEq, Repr

namespace Record

/-- The type of a record. -/
def type : Record → RecordType
  | armor _ => .armor
  | keyword => .keyword

/-- The armor in a record. -/
def armor? : Record → Option Armor
  | armor known => some known
  | keyword => none

/-- Whether two records are of one type and agree. -/
def agrees : Record → Record → Bool
  | armor left, armor right => left.agrees right
  | keyword, keyword => true
  | _, _ => false

end Record

/-- A form. -/
structure Form where
  /-- The name that editors see. -/
  editorId : Option String
  /-- The record. -/
  record : Record
deriving DecidableEq, Repr

namespace Form

/-- Whether two forms have one editor ID and records that agree. -/
def agrees (left right : Form) : Bool :=
  left.editorId == right.editorId && left.record.agrees right.record

/-- Whether a form has an editor ID, up to letter case. -/
def isCalled (form : Form) (editorId : String) : Bool :=
  form.editorId.any (Text.agree editorId)

end Form

end FormPatch
