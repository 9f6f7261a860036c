import FormPatch.MessagePack.Decoder
import FormPatch.Store

/-!
# Snapshots

A snapshot is a store and the version of its format, as one MessagePack value. Records are maps
from field names to values, in a fixed order; bytes after the value are ignored.
-/

namespace FormPatch.Snapshot

open MessagePack

/-- The version of the format. -/
def version : Nat := 1

/-- Why bytes are no snapshot. -/
inductive Fault where
  /-- The bytes do not start with a value of the expected shape. -/
  | malformed
  /-- The snapshot has another version. -/
  | version (found : UInt32)
deriving DecidableEq, Repr

/-- The wording of a fault. -/
def Fault.message : Fault → String
  | malformed => "malformed snapshot"
  | version found => s!"unsupported snapshot version {found.toNat} (expected {Snapshot.version})"

/-- The failure that a fault is. -/
def Fault.failure (fault : Fault) : Failure := .serialization fault.message

/-- A record as a map from the names of its fields. -/
def encodeRecord (fields : List (String × Bytes)) : Bytes :=
  encodeMapHead fields.length ++ fields.flatMap fun (name, bytes) => encodeText name ++ bytes

/-- Writes a form reference. -/
def encodeReference (reference : FormReference) : Bytes :=
  encodeRecord [("plugin", encodeText reference.plugin), ("id", encodeNat reference.id.toNat)]

/-- Writes an armor. -/
def encodeArmor (armor : Armor) : Bytes :=
  encodeRecord
    [("full_name", encodeText armor.fullName),
      ("biped_slots", encodeNat armor.slots.toNat),
      ("armor_rating", encodeSingle armor.rating),
      ("weight", encodeSingle armor.weight),
      ("value", encodeNat armor.value.toNat),
      ("keywords",
        encodeArrayHead armor.keywords.length ++ armor.keywords.flatMap encodeReference)]

/-- Writes a record under the name of its type. -/
def encodeTyped : Record → Bytes
  | .armor armor => encodeRecord [("Armor", encodeArmor armor)]
  | .keyword => encodeRecord [("Keyword", encodeRecord [])]

/-- Writes an editor ID, if there is one. -/
def encodeEditorId : Option String → Bytes
  | none => encodeNil
  | some text => encodeText text

/-- Writes a form. -/
def encodeForm (form : Form) : Bytes :=
  encodeRecord [("editor_id", encodeEditorId form.editorId), ("record", encodeTyped form.record)]

/-- Writes the forms of a store as a map. -/
def encodeForms (entries : List (FormReference × Form)) : Bytes :=
  encodeMapHead entries.length ++
    entries.flatMap fun (reference, form) => encodeReference reference ++ encodeForm form

/-- Writes a store. -/
def encodeStore (store : Store) : Bytes :=
  encodeRecord
    [("plugins", encodeArrayHead store.plugins.length ++ store.plugins.flatMap encodeText),
      ("forms", encodeForms store.forms.entries)]

/-- Writes a snapshot. -/
def encode (store : Store) : Bytes :=
  encodeRecord [("version", encodeNat version), ("store", encodeStore store)]

/-- What was read of a form reference. -/
structure ReferenceParts where
  /-- The plugin. -/
  plugin : Option String := none
  /-- The number. -/
  id : Option UInt32 := none

/-- The fields of a form reference. -/
def referenceFields : List (RecordField ReferenceParts) :=
  [⟨"plugin", fun parts => parts.plugin.isSome, fun room bytes =>
      (decodeText room bytes).map fun (text, rest) =>
        (fun parts => { parts with plugin := some text }, rest)⟩,
    ⟨"id", fun parts => parts.id.isSome, fun room bytes =>
      (decodeWord room bytes).map fun (word, rest) =>
        (fun parts => { parts with id := some word }, rest)⟩]

/-- Reads a form reference. -/
def decodeReference : Decoder FormReference :=
  decodeRecord referenceFields {} fun parts => do
    let plugin ← parts.plugin
    let id ← parts.id
    some ⟨plugin, id⟩

/-- What was read of an armor. -/
structure ArmorParts where
  /-- The name. -/
  fullName : Option String := none
  /-- The slots. -/
  slots : Option UInt32 := none
  /-- The rating. -/
  rating : Option Number.Single := none
  /-- The weight. -/
  weight : Option Number.Single := none
  /-- The value. -/
  value : Option UInt32 := none
  /-- The keywords. -/
  keywords : Option (List FormReference) := none

/-- The fields of an armor. -/
def armorFields : List (RecordField ArmorParts) :=
  [⟨"full_name", fun parts => parts.fullName.isSome, fun room bytes =>
      (decodeText room bytes).map fun (text, rest) =>
        (fun parts => { parts with fullName := some text }, rest)⟩,
    ⟨"biped_slots", fun parts => parts.slots.isSome, fun room bytes =>
      (decodeWord room bytes).map fun (word, rest) =>
        (fun parts => { parts with slots := some word }, rest)⟩,
    ⟨"armor_rating", fun parts => parts.rating.isSome, fun room bytes =>
      (decodeSingle room bytes).map fun (number, rest) =>
        (fun parts => { parts with rating := some number }, rest)⟩,
    ⟨"weight", fun parts => parts.weight.isSome, fun room bytes =>
      (decodeSingle room bytes).map fun (number, rest) =>
        (fun parts => { parts with weight := some number }, rest)⟩,
    ⟨"value", fun parts => parts.value.isSome, fun room bytes =>
      (decodeWord room bytes).map fun (word, rest) =>
        (fun parts => { parts with value := some word }, rest)⟩,
    ⟨"keywords", fun parts => parts.keywords.isSome, fun room bytes =>
      (decodeArray decodeReference room bytes).map fun (references, rest) =>
        (fun parts => { parts with keywords := some references }, rest)⟩]

/-- Reads an armor. -/
def decodeArmor : Decoder Armor :=
  decodeRecord armorFields {} fun parts => do
    let fullName ← parts.fullName
    let slots ← parts.slots
    let rating ← parts.rating
    let weight ← parts.weight
    let value ← parts.value
    let keywords ← parts.keywords
    some ⟨fullName, slots, rating, weight, value, keywords⟩

/-- Reads a record under the name of its type. -/
def decodeTyped : Decoder Record :=
  decodeVariant
    [("Armor", fun room bytes =>
        (decodeArmor room bytes).map fun (armor, rest) => (.armor armor, rest)),
      ("Keyword", decodeRecord ([] : List (RecordField Unit)) () fun _ => some .keyword)]

/-- What was read of a form. -/
structure FormParts where
  /-- The editor ID, which may be absent. -/
  editorId : Option (Option String) := none
  /-- The record. -/
  record : Option Record := none

/-- The fields of a form. -/
def formFields : List (RecordField FormParts) :=
  [⟨"editor_id", fun parts => parts.editorId.isSome, fun room bytes =>
      (decodeOption decodeText room bytes).map fun (text, rest) =>
        (fun parts => { parts with editorId := some text }, rest)⟩,
    ⟨"record", fun parts => parts.record.isSome, fun room bytes =>
      (decodeTyped room bytes).map fun (record, rest) =>
        (fun parts => { parts with record := some record }, rest)⟩]

/-- Reads a form; an editor ID that is not mentioned is absent. -/
def decodeForm : Decoder Form :=
  decodeRecord formFields {} fun parts => do
    let record ← parts.record
    some ⟨parts.editorId.join, record⟩

/-- What was read of a store. -/
structure StoreParts where
  /-- The plugins. -/
  plugins : Option (List String) := none
  /-- The forms. -/
  forms : Option (List (FormReference × Form)) := none

/-- The fields of a store. -/
def storeFields : List (RecordField StoreParts) :=
  [⟨"plugins", fun parts => parts.plugins.isSome, fun room bytes =>
      (decodeArray decodeText room bytes).map fun (plugins, rest) =>
        (fun parts => { parts with plugins := some plugins }, rest)⟩,
    ⟨"forms", fun parts => parts.forms.isSome, fun room bytes =>
      (decodeMap decodeReference decodeForm room bytes).map fun (forms, rest) =>
        (fun parts => { parts with forms := some forms }, rest)⟩]

/-- Reads a store. Of forms under equal references the last one counts. -/
def decodeStore : Decoder Store :=
  decodeRecord storeFields {} fun parts => do
    let plugins ← parts.plugins
    let forms ← parts.forms
    some ⟨plugins, .ofList forms⟩

/-- What was read of a snapshot. -/
structure Parts where
  /-- The version. -/
  version : Option UInt32 := none
  /-- The store. -/
  store : Option Store := none

/-- The fields of a snapshot. -/
def fields : List (RecordField Parts) :=
  [⟨"version", fun parts => parts.version.isSome, fun room bytes =>
      (decodeWord room bytes).map fun (word, rest) =>
        (fun parts => { parts with version := some word }, rest)⟩,
    ⟨"store", fun parts => parts.store.isSome, fun room bytes =>
      (decodeStore room bytes).map fun (store, rest) =>
        (fun parts => { parts with store := some store }, rest)⟩]

/-- Reads a snapshot. The version is looked at only once the whole value has been read. -/
def decode (bytes : Bytes) : Except Fault Store :=
  let found := decodeRecord fields {} (fun parts => do
    let version ← parts.version
    let store ← parts.store
    some (version, store)) mostNesting bytes
  match found with
  | none => .error .malformed
  | some ((found, store), _) =>
    if found.toNat = version then .ok store else .error (.version found)

end FormPatch.Snapshot
