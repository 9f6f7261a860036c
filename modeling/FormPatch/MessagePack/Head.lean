import FormPatch.Number.Binary

/-!
# Heads of MessagePack values

A value in the MessagePack format starts with a head, which says what kind of value follows and
how large it is. Text and other strings of bytes belong to their head here; arrays and maps are
heads that announce how many values follow. The writers use the shortest form of each head.
-/

namespace FormPatch.MessagePack

open scoped Number

/-- Bytes in file order. -/
abbrev Bytes := List UInt8

/-- The start of a value. -/
inductive Head where
  /-- The absent value. -/
  | nil
  /-- A truth value. -/
  | bool (value : Bool)
  /-- A number written without a sign. -/
  | unsigned (value : Nat)
  /-- A number written with a sign. -/
  | signed (value : Int)
  /-- A number of the 32-bit format. -/
  | single (value : Number.Single)
  /-- A number of the 64-bit format. -/
  | double (value : Number.Double)
  /-- A text, whose bytes need not be valid. -/
  | text (bytes : Bytes)
  /-- Bytes. -/
  | binary (bytes : Bytes)
  /-- Bytes of a kind that applications define. -/
  | extension (kind : UInt8) (bytes : Bytes)
  /-- An array of as many values as follow. -/
  | array (count : Nat)
  /-- A map of as many pairs of values as follow. -/
  | map (count : Nat)
deriving DecidableEq, Repr

/-- The number that bytes stand for, the most significant one first. -/
def natOfBytes (bytes : Bytes) : Nat :=
  bytes.foldl (fun value byte => value * 256 + byte.toNat) 0

/-- The last bytes of a number, the most significant one first. -/
def bytesOfNat : Nat → Nat → Bytes
  | 0, _ => []
  | width + 1, value => UInt8.ofNat (value / 256 ^ width) :: bytesOfNat width value

/-- The number that bytes stand for when the first bit counts as a sign. -/
def intOfBytes (bytes : Bytes) : Int :=
  let value := natOfBytes bytes
  if 2 * value < 256 ^ bytes.length then value else (value : Int) - (256 ^ bytes.length : Nat)

/-- Takes bytes from the front. -/
def takeBytes (count : Nat) (bytes : Bytes) : Option (Bytes × Bytes) :=
  let taken := bytes.take count
  if taken.length = count then some (taken, bytes.drop count) else none

/-- Takes a number of some bytes from the front. -/
def takeNat (width : Nat) (bytes : Bytes) : Option (Nat × Bytes) :=
  (takeBytes width bytes).map fun (taken, rest) => (natOfBytes taken, rest)

namespace Head

/-- Takes a string whose length is written in some bytes. -/
def takeSized (width : Nat) (bytes : Bytes) : Option (Bytes × Bytes) := do
  let (count, rest) ← takeNat width bytes
  takeBytes count rest

/-- Takes an extension of a given length: its kind, then its bytes. -/
def takeExtension (count : Nat) (bytes : Bytes) : Option (Head × Bytes) :=
  match bytes with
  | [] => none
  | kind :: rest => (takeBytes count rest).map fun (taken, after) => (extension kind taken, after)

/-- Takes an extension whose length is written in some bytes. -/
def takeSizedExtension (width : Nat) (bytes : Bytes) : Option (Head × Bytes) := do
  let (count, rest) ← takeNat width bytes
  takeExtension count rest

/-- Takes a number and makes a head of it. -/
def takeNumber (width : Nat) (head : Nat → Head) (bytes : Bytes) : Option (Head × Bytes) :=
  (takeNat width bytes).map fun (value, rest) => (head value, rest)

/-- Takes a number with a sign. -/
def takeSigned (width : Nat) (bytes : Bytes) : Option (Head × Bytes) :=
  (takeBytes width bytes).map fun (taken, rest) => (signed (intOfBytes taken), rest)

/-- Takes a string of known length and makes a head of it. -/
def takeString (count : Nat) (head : Bytes → Head) (bytes : Bytes) : Option (Head × Bytes) :=
  (takeBytes count bytes).map fun (taken, rest) => (head taken, rest)

/-- Takes a string whose length is written in some bytes and makes a head of it. -/
def takeSizedString (width : Nat) (head : Bytes → Head) (bytes : Bytes) : Option (Head × Bytes) :=
  (takeSized width bytes).map fun (taken, rest) => (head taken, rest)

/-- Takes a head whose first byte is known and which needs more than that byte, or one that lies
in the byte as a fixed word. -/
def takeWide (first : Nat) (rest : Bytes) : Option (Head × Bytes) :=
  match first with
  | 0xC0 => some (nil, rest)
  | 0xC2 => some (bool false, rest)
  | 0xC3 => some (bool true, rest)
  | 0xC4 => takeSizedString 1 binary rest
  | 0xC5 => takeSizedString 2 binary rest
  | 0xC6 => takeSizedString 4 binary rest
  | 0xC7 => takeSizedExtension 1 rest
  | 0xC8 => takeSizedExtension 2 rest
  | 0xC9 => takeSizedExtension 4 rest
  | 0xCA => takeNumber 4 (fun bits => single (.ofBits .single bits)) rest
  | 0xCB => takeNumber 8 (fun bits => double (.ofBits .double bits)) rest
  | 0xCC => takeNumber 1 unsigned rest
  | 0xCD => takeNumber 2 unsigned rest
  | 0xCE => takeNumber 4 unsigned rest
  | 0xCF => takeNumber 8 unsigned rest
  | 0xD0 => takeSigned 1 rest
  | 0xD1 => takeSigned 2 rest
  | 0xD2 => takeSigned 4 rest
  | 0xD3 => takeSigned 8 rest
  | 0xD4 => takeExtension 1 rest
  | 0xD5 => takeExtension 2 rest
  | 0xD6 => takeExtension 4 rest
  | 0xD7 => takeExtension 8 rest
  | 0xD8 => takeExtension 16 rest
  | 0xD9 => takeSizedString 1 text rest
  | 0xDA => takeSizedString 2 text rest
  | 0xDB => takeSizedString 4 text rest
  | 0xDC => takeNumber 2 array rest
  | 0xDD => takeNumber 4 array rest
  | 0xDE => takeNumber 2 map rest
  | 0xDF => takeNumber 4 map rest
  | _ => none

/-- Takes a head from the front. -/
def take : Bytes → Option (Head × Bytes)
  | [] => none
  | byte :: rest =>
    let first := byte.toNat
    if first < 0x80 then some (unsigned first, rest)
    else if first < 0x90 then some (map (first - 0x80), rest)
    else if first < 0xA0 then some (array (first - 0x90), rest)
    else if first < 0xC0 then takeString (first - 0xA0) text rest
    else if first < 0xE0 then takeWide first rest
    else some (signed ((first : Int) - 0x100), rest)

end Head

/-- The absent value. -/
def encodeNil : Bytes := [0xC0]

/-- A number below two to the sixty-fourth. -/
def encodeNat (value : Nat) : Bytes :=
  if value < 0x80 then bytesOfNat 1 value
  else if value < UInt8.size then 0xCC :: bytesOfNat 1 value
  else if value < UInt16.size then 0xCD :: bytesOfNat 2 value
  else if value < UInt32.size then 0xCE :: bytesOfNat 4 value
  else 0xCF :: bytesOfNat 8 value

/-- A number of the 32-bit format. -/
def encodeSingle (value : Number.Single) : Bytes := 0xCA :: bytesOfNat 4 value.toBits

/-- The head of an array. -/
def encodeArrayHead (count : Nat) : Bytes :=
  if count < 0x10 then bytesOfNat 1 (0x90 + count)
  else if count < UInt16.size then 0xDC :: bytesOfNat 2 count
  else 0xDD :: bytesOfNat 4 count

/-- The head of a map. -/
def encodeMapHead (count : Nat) : Bytes :=
  if count < 0x10 then bytesOfNat 1 (0x80 + count)
  else if count < UInt16.size then 0xDE :: bytesOfNat 2 count
  else 0xDF :: bytesOfNat 4 count

/-- The head of a text of some bytes. -/
def encodeTextHead (count : Nat) : Bytes :=
  if count < 0x20 then bytesOfNat 1 (0xA0 + count)
  else if count < UInt8.size then 0xD9 :: bytesOfNat 1 count
  else if count < UInt16.size then 0xDA :: bytesOfNat 2 count
  else 0xDB :: bytesOfNat 4 count

/-- A text. -/
def encodeText (text : String) : Bytes :=
  let bytes := text.toByteArray.data.toList
  encodeTextHead bytes.length ++ bytes

end FormPatch.MessagePack
