import FormPatch.Proofs.MessagePack.Heads

/-!
# Values that are taken as they were written

Numbers, texts, arrays and maps are taken by their decoders as they were written, if the lengths in
them fit in four bytes. Records are maps from the names of their fields; a record is taken when each
name leads to a field that was not read before and whose decoder takes the bytes behind the name.

Main statements: one law for each decoder, from the laws of its parts.
-/

namespace FormPatch.MessagePack

open Head

variable {α β σ : Type}

section Plain

/-- Texts with the same bytes are one text. -/
theorem textBytes_inj {left right : String} : textBytes left = textBytes right ↔ left = right := by
  rw [textBytes, textBytes, Array.toList_inj, ← String.toByteArray_inj, ByteArray.ext_iff]

/-- The bytes of a text are those of that text again. -/
theorem textOfBytes?_textBytes (text : String) : textOfBytes? (textBytes text) = some text := by
  have valid : text.toByteArray.IsValidUTF8 := text.isValidUTF8
  have same : textOfBytes? (textBytes text) = String.fromUTF8? text.toByteArray := rfl
  rw [same, String.fromUTF8?, dif_pos valid]
  rfl

/-- A word is taken as it was written. -/
theorem takes_decodeWord (value : UInt32) (room : Nat) :
    Takes (decodeWord room) (encodeNat value.toNat) value := by
  have small : value.toNat < UInt32.size := value.toNat_lt
  refine (takes_encodeNat (Nat.lt_trans small (by decide))).last fun rest => ?_
  show (if value.toNat < UInt32.size then some (UInt32.ofNat value.toNat, rest) else none) = _
  rw [if_pos small, UInt32.ofNat_toNat]

/-- A 32-bit number is taken as it was written. -/
theorem takes_decodeSingle (value : Number.Single) (room : Nat) :
    Takes (decodeSingle room) (encodeSingle value) value :=
  (takes_encodeSingle value).last fun _ => rfl

/-- A text that is not too long is taken as it was written. -/
theorem takes_decodeText {text : String} (short : text.utf8ByteSize < UInt32.size) (room : Nat) :
    Takes (decodeText room) (encodeText text) text := by
  refine (takes_encodeText short).last fun rest => ?_
  show (textOfBytes? (textBytes text)).map _ = _
  rw [textOfBytes?_textBytes]
  rfl

end Plain

section Compound

/-- The absent value is taken as absent. -/
theorem takes_decodeOption_none (item : Decoder α) (room : Nat) :
    Takes (decodeOption item room) encodeNil none where
  whole _ := rfl
  cut front short apart := by
    have none := takes_encodeNil.cut front short apart
    rw [decodeOption, none]
    rfl

/-- A value that lies in its head is taken as present, unless its head is that of the absent
value. -/
theorem takes_decodeOption_some {item : Decoder α} {room : Nat} {bytes : Bytes} {head : Head}
    {value : α} (taken : Takes (item room) bytes value) (heads : Takes take bytes head)
    (present : head ≠ .nil) : Takes (decodeOption item room) bytes (some value) where
  whole tail := by
    rw [decodeOption, heads.whole]
    cases head
    case nil => exact absurd rfl present
    all_goals
      show (item room (bytes ++ tail) >>= fun found => some (some found.1, found.2)) = _
      rw [taken.whole]
      rfl
  cut front short apart := by
    have none := heads.cut front short apart
    rw [decodeOption, none]
    rfl

/-- An array that is not too long is taken as it was written when each item is. -/
theorem takes_decodeArray {item : Decoder α} {room : Nat} {encode : α → Bytes} {values : List α}
    (fits : values.length < UInt32.size)
    (each : ∀ value ∈ values, Takes (item room) (encode value) value) :
    Takes (decodeArray item (room + 1)) (encodeArrayHead values.length ++ values.flatMap encode)
      values :=
  (takes_encodeArrayHead fits).bind (takes_takeMany each)

/-- A map that is not too long is taken as it was written when each key and each value is. -/
theorem takes_decodeMap {key : Decoder α} {value : Decoder β} {room : Nat} {encode : α × β → Bytes}
    {entries : List (α × β)} (fits : entries.length < UInt32.size)
    (each : ∀ entry ∈ entries, ∃ front behind, encode entry = front ++ behind ∧
      Takes (key room) front entry.1 ∧ Takes (value room) behind entry.2) :
    Takes (decodeMap key value (room + 1)) (encodeMapHead entries.length ++ entries.flatMap encode)
      entries := by
  refine (takes_encodeMapHead fits).bind (takes_takeMany fun entry member => ?_)
  obtain ⟨front, behind, split, first, second⟩ := each entry member
  rw [split]
  exact first.bind (second.last fun _ => rfl)

end Compound

section Records

/-- A name is found at the place of the first thing that has it. -/
theorem placeOfName?_text {names : List String} {name : String} :
    placeOfName? names (.text (textBytes name)) = some (names.findIdx? (· == name)) := by
  have same (other : String) : (textBytes other == textBytes name) = (other == name) := by
    rw [Bool.eq_iff_iff, beq_iff_eq, beq_iff_eq, textBytes_inj]
  show some (names.findIdx? fun other => textBytes other == textBytes name) = _
  simp only [same]

/-- What is found among named things is at the place of its name. -/
theorem exists_placeOfName? {things : List α} {nameOf : α → String} {name : String} {thing : α}
    (found : things.find? (fun thing => nameOf thing == name) = some thing) :
    ∃ place, placeOfName? (things.map nameOf) (.text (textBytes name)) = some (some place) ∧
      things[place]? = some thing := by
  rw [List.find?_eq_bind_findIdx?_getElem?] at found
  obtain ⟨place, first, there⟩ := Option.bind_eq_some_iff.1 found
  refine ⟨place, ?_, there⟩
  rw [placeOfName?_text, List.findIdx?_map]
  exact congrArg some first

/-- Fields that were written and what they make of what was read before: each name leads to a field
that was not read before, and its decoder takes the bytes behind the name. -/
inductive Written (fields : List (RecordField σ)) (room : Nat) :
    List (String × Bytes) → σ → σ → Prop
  /-- No field. -/
  | nil (state : σ) : Written fields room [] state state
  /-- A field and the others. -/
  | cons {name : String} {bytes : Bytes} {others : List (String × Bytes)} {field : RecordField σ}
    {state final : σ} {change : σ → σ}
    (found : fields.find? (fun field => field.name == name) = some field)
    (unread : field.isRead state = false) (taken : Takes (field.decode room) bytes change)
    (later : Written fields room others (change state) final) :
    Written fields room ((name, bytes) :: others) state final

/-- Named fields are taken as they were written when each of them is. -/
theorem takes_decodeNamed {fields : List (RecordField σ)} {room : Nat}
    {written : List (String × Bytes)} {state final : σ}
    (short : ∀ field ∈ fields, field.name.utf8ByteSize < UInt32.size)
    (wrote : Written fields room written state final) :
    Takes (decodeNamed fields room written.length state)
      (written.flatMap fun (name, bytes) => encodeText name ++ bytes) final := by
  induction wrote with
  | nil state => exact .nothing state
  | @cons name bytes others field state final change found unread taken later ih =>
    obtain ⟨place, named, there⟩ := exists_placeOfName? found
    have same : field.name = name := by simpa using List.find?_some found
    have fits : name.utf8ByteSize < UInt32.size :=
      same ▸ short field (List.mem_of_find?_eq_some found)
    have behind : Takes (fun rest => field.decode room rest >>= fun found =>
        decodeNamed fields room others.length (found.1 state) found.2)
        (bytes ++ others.flatMap fun (name, bytes) => encodeText name ++ bytes) final :=
      taken.bind ih
    rw [List.flatMap_cons, List.append_assoc]
    refine (takes_encodeText fits).bind (behind.congr fun rest => ?_)
    show placeOfName? (fields.map RecordField.name) (.text (textBytes name)) >>= _ = _
    rw [named]
    show fields[place]? >>= _ = _
    rw [there]
    show (if field.isRead state = true then none else _) = _
    rw [if_neg (by simp [unread])]

/-- A record is taken when its fields were written and make it complete. -/
theorem takes_decodeRecord {fields : List (RecordField σ)} {room : Nat}
    {written : List (String × Bytes)} {start final : σ} {finish : σ → Option α} {value : α}
    (short : ∀ field ∈ fields, field.name.utf8ByteSize < UInt32.size)
    (fits : written.length < UInt32.size) (wrote : Written fields room written start final)
    (complete : finish final = some value) :
    Takes (decodeRecord fields start finish (room + 1))
      (encodeMapHead written.length ++
        written.flatMap fun (name, bytes) => encodeText name ++ bytes) value := by
  refine (takes_encodeMapHead fits).bind ((takes_decodeNamed short wrote).last fun rest => ?_)
  show (finish final >>= fun value => some (value, rest)) = _
  rw [complete]
  rfl

/-- A variant is taken when its name leads to the decoder of its payload. -/
theorem takes_decodeVariant {variants : List (String × Decoder α)} {room : Nat} {name : String}
    {payload : Decoder α} {bytes : Bytes} {value : α}
    (found : variants.find? (fun variant => variant.1 == name) = some (name, payload))
    (short : name.utf8ByteSize < UInt32.size) (taken : Takes (payload room) bytes value) :
    Takes (decodeVariant variants room)
      (encodeMapHead 1 ++ [(name, bytes)].flatMap fun (name, bytes) => encodeText name ++ bytes)
      value := by
  obtain ⟨place, named, there⟩ := exists_placeOfName? found
  rw [List.flatMap_singleton]
  have one : (1 : Nat) < UInt32.size := by decide
  refine (takes_encodeMapHead one).bind ((takes_encodeText short).bind (taken.congr fun rest => ?_))
  show (placeOfName? (variants.map Prod.fst) (.text (textBytes name)) >>= fun found =>
    found >>= fun place => variants[place]? >>= fun variant => variant.2 room rest) = _
  rw [named]
  show (variants[place]? >>= fun variant => variant.2 room rest) = _
  rw [there]
  rfl

end Records

end FormPatch.MessagePack
