import FormPatch.MessagePack.Head

/-!
# Decoding MessagePack values

A decoder takes one value of an expected type from the front of some bytes. Decoders are lenient
about the form in which a value was written: integers of every width, text as bytes, records as
maps in any order or as arrays. Arrays and maps may lie only so deep in each other; the room that
is left is an argument of every decoder, and recursion ends with it.
-/

namespace FormPatch.MessagePack

/-- Takes a value from the front, given how many arrays and maps may still be entered. -/
abbrev Decoder (α : Type) := Nat → Bytes → Option (α × Bytes)

/-- Arrays and maps may lie this deep in each other; an extension counts as one more level. -/
def mostNesting : Nat := 1023

/-- Runs a decoder a number of times. -/
def takeMany {α : Type} (item : Bytes → Option (α × Bytes)) :
    Nat → Bytes → Option (List α × Bytes)
  | 0, bytes => some ([], bytes)
  | count + 1, bytes => do
    let (first, rest) ← item bytes
    let (others, after) ← takeMany item count rest
    some (first :: others, after)

/-- Takes a value of any type and drops it. -/
def skip : Decoder Unit
  | room, bytes => do
    let (head, rest) ← Head.take bytes
    match head, room with
    | .array count, room + 1 => do
      let (_, after) ← takeMany (skip room) count rest
      some ((), after)
    | .map count, room + 1 => do
      let (_, after) ← takeMany (skip room) (2 * count) rest
      some ((), after)
    | .array _, 0 => none
    | .map _, 0 => none
    | .extension _ _, 0 => none
    | _, _ => some ((), rest)

/-- Takes an integer of 32 bits. -/
def decodeWord : Decoder UInt32
  | _, bytes => do
    let (head, rest) ← Head.take bytes
    match head with
    | .unsigned value => if value < UInt32.size then some (UInt32.ofNat value, rest) else none
    | .signed value =>
      if 0 ≤ value ∧ value < UInt32.size then some (UInt32.ofNat value.toNat, rest) else none
    | _ => none

/-- Takes a number of the 32-bit format. Other numbers are rounded once. -/
def decodeSingle : Decoder Number.Single
  | _, bytes => do
    let (head, rest) ← Head.take bytes
    match head with
    | .single value => some (value, rest)
    | .double value => some (value.convert .single, rest)
    | .unsigned value => some (.ofInt .single value, rest)
    | .signed value => some (.ofInt .single value, rest)
    | _ => none

/-- The text that bytes stand for. -/
def textOfBytes? (bytes : Bytes) : Option String := String.fromUTF8? ⟨bytes.toArray⟩

/-- Takes a text. -/
def decodeText : Decoder String
  | _, bytes => do
    let (head, rest) ← Head.take bytes
    match head with
    | .text content => (textOfBytes? content).map fun text => (text, rest)
    | .binary content => (textOfBytes? content).map fun text => (text, rest)
    | _ => none

/-- Takes a value that may be absent. -/
def decodeOption {α : Type} (item : Decoder α) : Decoder (Option α)
  | room, bytes => do
    let (head, rest) ← Head.take bytes
    match head with
    | .nil => some (none, rest)
    | _ =>
      let (value, after) ← item room bytes
      some (some value, after)

/-- Takes an array of values. No bytes at all stand for an array of nothing. -/
def decodeArray {α : Type} (item : Decoder α) : Decoder (List α)
  | room, bytes => do
    let (head, rest) ← Head.take bytes
    match head, room with
    | .array count, room + 1 => takeMany (item room) count rest
    | .binary [], _ => some ([], rest)
    | _, _ => none

/-- Takes a map. -/
def decodeMap {α β : Type} (key : Decoder α) (value : Decoder β) : Decoder (List (α × β))
  | room, bytes => do
    let (head, rest) ← Head.take bytes
    match head, room with
    | .map count, room + 1 =>
      takeMany (fun bytes => do
        let (first, rest) ← key room bytes
        let (second, after) ← value room rest
        some ((first, second), after)) count rest
    | _, _ => none

/-- What a name in a record or variant says: the place of a known name, or that it is unknown. A
name is a text, bytes, or its own place. -/
def placeOfName? (names : List String) : Head → Option (Option Nat)
  | .text content => some (names.findIdx? fun name => name.toByteArray.data.toList == content)
  | .binary content => some (names.findIdx? fun name => name.toByteArray.data.toList == content)
  | .unsigned place => some (if place < names.length then some place else none)
  | _ => none

/-- Takes the name of a variant, and its payload with the decoder of that variant. A variant is a
map of one entry. -/
def decodeVariant {α : Type} (variants : List (String × Decoder α)) : Decoder α
  | room, bytes => do
    let (head, rest) ← Head.take bytes
    match head with
    | .map 1 =>
      let (inner, after) ← Head.take rest
      let place ← (← placeOfName? (variants.map Prod.fst) inner)
      let (_, payload) ← variants[place]?
      payload room after
    | _ => none

/-- A field of a record that is read part by part: its name, whether it was read before, and how
its value changes what was read so far. -/
structure RecordField (σ : Type) where
  /-- The name. -/
  name : String
  /-- Whether the field was read. -/
  isRead : σ → Bool
  /-- Takes the value. -/
  decode : Decoder (σ → σ)

/-- Takes the fields of a record that was written as a map: in any order, unknown names skipped, no
name twice. -/
def decodeNamed {σ : Type} (fields : List (RecordField σ)) (room : Nat) :
    Nat → σ → Bytes → Option (σ × Bytes)
  | 0, state, bytes => some (state, bytes)
  | count + 1, state, bytes => do
    let (name, rest) ← Head.take bytes
    match ← placeOfName? (fields.map RecordField.name) name with
    | none => do
      let (_, after) ← skip room rest
      decodeNamed fields room count state after
    | some place => do
      let field ← fields[place]?
      if field.isRead state then none
      else
        let (change, after) ← field.decode room rest
        decodeNamed fields room count (change state) after

/-- Takes the fields of a record that was written as an array: all of them, in order. -/
def decodePlaced {σ : Type} (room : Nat) : List (RecordField σ) → σ → Bytes → Option (σ × Bytes)
  | [], state, bytes => some (state, bytes)
  | field :: fields, state, bytes => do
    let (change, rest) ← field.decode room bytes
    decodePlaced room fields (change state) rest

/-- Takes a record, given what is known before any field and what makes it complete. Bytes of any
length stand for a record without fields. -/
def decodeRecord {σ α : Type} (fields : List (RecordField σ)) (start : σ) (finish : σ → Option α) :
    Decoder α
  | room, bytes => do
    let (head, rest) ← Head.take bytes
    match head, room with
    | .map count, room + 1 => do
      let (state, after) ← decodeNamed fields room count start rest
      let value ← finish state
      some (value, after)
    | .array count, room + 1 =>
      if count = fields.length then do
        let (state, after) ← decodePlaced room fields start rest
        let value ← finish state
        some (value, after)
      else none
    | .binary _, _ =>
      if fields.isEmpty then do
        let value ← finish start
        some (value, rest)
      else none
    | _, _ => none

end FormPatch.MessagePack
