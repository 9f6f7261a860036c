import FormPatch.Number.Shortest
import FormPatch.Statement.Grammar

/-!
# Armor patches

An armor patch names the armors that it edits, one field, and the edits of that field in order.
Scalar fields are set; the slots and the keywords of an armor can also be added to, removed from
and cleared.
-/

namespace FormPatch

/-- Which armors are edited. -/
inductive ArmorFilter where
  /-- The one under a reference. -/
  | form (reference : String)
  /-- Each one that carries a keyword. -/
  | keyword (reference : String)
deriving DecidableEq, Repr

/-- The fields of an armor. -/
inductive ArmorField where
  /-- The occupied slots. -/
  | slots
  /-- The name. -/
  | fullName
  /-- The rating. -/
  | rating
  /-- The weight. -/
  | weight
  /-- The value. -/
  | value
  /-- The keywords. -/
  | keywords
deriving DecidableEq, Repr

namespace ArmorField

/-- The word for a field. -/
def word : ArmorField → String
  | slots => "BipedObjectSlots"
  | fullName => "FullName"
  | rating => "ArmorRating"
  | weight => "Weight"
  | value => "Value"
  | keywords => "Keywords"

/-- The field that a word stands for. -/
def ofWord? (word : String) : Option ArmorField :=
  [slots, fullName, rating, weight, value, keywords].find? fun field => field.word == word

end ArmorField

/-- One edit of a field. -/
inductive ArmorOperation where
  /-- Puts a set of slots in the place of the old one. -/
  | setSlots (slots : SlotSet)
  /-- Adds slots. -/
  | addSlots (slots : SlotSet)
  /-- Removes slots. -/
  | removeSlots (slots : SlotSet)
  /-- Removes every slot. -/
  | clearSlots
  /-- Gives a name. -/
  | setFullName (name : String)
  /-- Gives a rating. -/
  | setRating (rating : Number.Double)
  /-- Gives a weight. -/
  | setWeight (weight : Number.Double)
  /-- Gives a value. -/
  | setValue (value : Int)
  /-- Attaches keywords. -/
  | addKeywords (references : List String)
  /-- Detaches keywords. -/
  | removeKeywords (references : List String)
  /-- Detaches every keyword. -/
  | clearKeywords
deriving DecidableEq, Repr

/-- Edits of one field of some armors. -/
structure ArmorPatch where
  /-- Which armors are edited. -/
  filter : ArmorFilter
  /-- Which field is edited. -/
  field : ArmorField
  /-- The edits, in order. -/
  operations : List ArmorOperation
deriving DecidableEq, Repr

namespace ArmorOperation

open Syntax Syntax.Reader

/-- Slots between bars, at least one. -/
def readSlots : Reader SlotSet := do
  let first ← slot
  let others ← afterEach "|" (by decide) slot
  pure (.ofList (first :: others))

/-- One edit of a list of slots, from its name to its closing parenthesis. -/
def readSlotEdit : Reader ArmorOperation := do
  let word ← next
  expect "("
  if word = "Clear" then do
    expect ")"
    pure clearSlots
  else if word = "Add" then do
    let slots ← arguments slot
    pure (addSlots (.ofList slots))
  else if word = "Remove" then do
    let slots ← arguments slot
    pure (removeSlots (.ofList slots))
  else fail (.operation word)

/-- One edit of a list of keywords, from its name to its closing parenthesis. -/
def readKeywordEdit : Reader ArmorOperation := do
  let word ← next
  expect "("
  if word = "Clear" then do
    expect ")"
    pure clearKeywords
  else if word = "Add" then do
    let references ← arguments form
    pure (addKeywords references)
  else if word = "Remove" then do
    let references ← arguments form
    pure (removeKeywords references)
  else fail (.operation word)

/-- Edits of a list, each behind a point, at least one. -/
def readEdits (field : ArmorField) (edit : Reader ArmorOperation) :
    Reader (List ArmorOperation) := do
  let edits ← afterEach "." (by decide) edit
  if edits.isEmpty then
    let found ← peek
    fail (.noOperation field.word found)
  else pure edits

/-- A value behind an equals sign. -/
def readSet {α : Type} (value : Reader α) (set : α → ArmorOperation) :
    Reader (List ArmorOperation) := do
  expect "="
  let found ← value
  pure [set found]

/-- The edits of a field. -/
def read : ArmorField → Reader (List ArmorOperation)
  | .slots => do
    if ← accept "=" then
      let slots ← readSlots
      pure [setSlots slots]
    else readEdits .slots readSlotEdit
  | .keywords => readEdits .keywords readKeywordEdit
  | .fullName => readSet string setFullName
  | .rating => readSet number setRating
  | .weight => readSet number setWeight
  | .value => readSet integer setValue

/-- References between commas. -/
def referencesText (references : List String) : String :=
  ", ".intercalate (references.map formText)

/-- The written form of an edit, behind the word for its field. -/
def text : ArmorOperation → String
  | setSlots slots => " = " ++ slots.text " | "
  | addSlots slots => ".Add(" ++ slots.text ", " ++ ")"
  | removeSlots slots => ".Remove(" ++ slots.text ", " ++ ")"
  | clearSlots => ".Clear()"
  | setFullName name => s!" = \"{name}\""
  | setRating rating => s!" = {rating.text}"
  | setWeight weight => s!" = {weight.text}"
  | setValue value => s!" = {value}"
  | addKeywords references => s!".Add({referencesText references})"
  | removeKeywords references => s!".Remove({referencesText references})"
  | clearKeywords => ".Clear()"

end ArmorOperation

namespace ArmorPatch

open Syntax Syntax.Reader

/-- The filter that a word stands for, given its argument. -/
def filterOfWord? (word : String) : Option (String → ArmorFilter) :=
  if word = "FilterByFormID" then some .form
  else if word = "FilterByKeyword" then some .keyword
  else none

/-- Reads a filter. -/
def readFilter : Reader ArmorFilter := do
  let word ← next
  match filterOfWord? word with
  | none => fail (.filter word)
  | some filter =>
    expect "("
    let reference ← form
    expect ")"
    pure (filter reference)

/-- Reads a patch and its semicolon. -/
def read : Reader ArmorPatch := do
  let filter ← readFilter
  expect "."
  let word ← next
  match ArmorField.ofWord? word with
  | none => fail (.element word)
  | some field =>
    let operations ← ArmorOperation.read field
    expect ";"
    pure ⟨filter, field, operations⟩

/-- Writes a patch and its semicolon. -/
def write (level : Nat) (patch : ArmorPatch) : String :=
  let filter :=
    match patch.filter with
    | .form reference => s!"FilterByFormID({formText reference})"
    | .keyword reference => s!"FilterByKeyword({formText reference})"
  let operations := String.join (patch.operations.map ArmorOperation.text)
  s!"{indent level}{filter}.{patch.field.word}{operations};"

/-- Reading a filter takes a token wherever there is one. -/
theorem progresses_readFilter : readFilter.Progresses := progresses_next.bind _

/-- The grammar of armor patches. -/
def grammar : Grammar ArmorPatch := ⟨read, progresses_readFilter.bind _, write⟩

end ArmorPatch

end FormPatch
