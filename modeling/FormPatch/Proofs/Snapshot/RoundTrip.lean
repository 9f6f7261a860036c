import FormPatch.Proofs.MessagePack.Decoders
import FormPatch.Snapshot

/-!
# Snapshots that are read as they were written

A snapshot gives back the store that it was written for, whatever bytes follow it, and a part of a
snapshot gives back nothing. Lengths in a snapshot take at most four bytes, so texts and lists have
to be shorter than two to the thirty-second.

Main statements: the round trip of snapshots, and the fault of those that break off.
-/

namespace FormPatch

open MessagePack

/-- Whether the length of a reference's plugin can be written. -/
def FormReference.IsStorable (reference : FormReference) : Prop :=
  reference.plugin.utf8ByteSize < UInt32.size

instance (reference : FormReference) : Decidable reference.IsStorable :=
  inferInstanceAs (Decidable (_ < _))

/-- Whether all lengths in an armor can be written. -/
structure Armor.IsStorable (armor : Armor) : Prop where
  /-- The length of the name. -/
  fullName : armor.fullName.utf8ByteSize < UInt32.size
  /-- The number of keywords. -/
  count : armor.keywords.length < UInt32.size
  /-- The keywords. -/
  keywords : ∀ keyword ∈ armor.keywords, keyword.IsStorable

/-- Whether all lengths in a record can be written. -/
def Record.IsStorable : Record → Prop
  | armor known => known.IsStorable
  | keyword => True

/-- Whether all lengths in a form can be written. -/
structure Form.IsStorable (form : Form) : Prop where
  /-- The length of the editor ID. -/
  editorId : ∀ text ∈ form.editorId, text.utf8ByteSize < UInt32.size
  /-- The record. -/
  record : form.record.IsStorable

/-- Whether all lengths in a store can be written. -/
structure Store.IsStorable (store : Store) : Prop where
  /-- The number of plugins. -/
  count : store.plugins.length < UInt32.size
  /-- The lengths of the plugins. -/
  plugins : ∀ plugin ∈ store.plugins, plugin.utf8ByteSize < UInt32.size
  /-- The number of forms. -/
  size : store.forms.size < UInt32.size
  /-- The references and their forms. -/
  forms : ∀ entry ∈ store.forms.entries, entry.1.IsStorable ∧ entry.2.IsStorable

namespace Snapshot

section Parts

/-- A storable reference is taken as it was written. -/
theorem takes_reference {reference : FormReference} (storable : reference.IsStorable) (room : Nat) :
    Takes (decodeReference (room + 1)) (encodeReference reference) reference := by
  have plugin := (takes_decodeText storable room).map
    fun text (parts : ReferenceParts) => { parts with plugin := some text }
  have id := (takes_decodeWord reference.id room).map
    fun word (parts : ReferenceParts) => { parts with id := some word }
  have wrote : Written referenceFields room [("plugin", _), ("id", _)] {} _ :=
    .cons rfl rfl plugin <| .cons rfl rfl id <| .nil _
  exact takes_decodeRecord (by decide) (by simp [UInt32.size]) wrote rfl

/-- A storable armor is taken as it was written. -/
theorem takes_armor {armor : Armor} (storable : armor.IsStorable) (room : Nat) :
    Takes (decodeArmor (room + 3)) (encodeArmor armor) armor := by
  have fullName := (takes_decodeText storable.fullName (room + 2)).map
    fun text (parts : ArmorParts) => { parts with fullName := some text }
  have slots := (takes_decodeWord armor.slots (room + 2)).map
    fun word (parts : ArmorParts) => { parts with slots := some word }
  have rating := (takes_decodeSingle armor.rating (room + 2)).map
    fun number (parts : ArmorParts) => { parts with rating := some number }
  have weight := (takes_decodeSingle armor.weight (room + 2)).map
    fun number (parts : ArmorParts) => { parts with weight := some number }
  have value := (takes_decodeWord armor.value (room + 2)).map
    fun word (parts : ArmorParts) => { parts with value := some word }
  have references : Takes (decodeArray decodeReference (room + 2)) _ armor.keywords :=
    takes_decodeArray storable.count
      fun keyword member => takes_reference (storable.keywords keyword member) room
  have keywords := references.map
    fun references (parts : ArmorParts) => { parts with keywords := some references }
  have wrote : Written armorFields (room + 2)
      [("full_name", _), ("biped_slots", _), ("armor_rating", _), ("weight", _), ("value", _),
        ("keywords", _)] {} _ :=
    .cons rfl rfl fullName <| .cons rfl rfl slots <| .cons rfl rfl rating <|
      .cons rfl rfl weight <| .cons rfl rfl value <| .cons rfl rfl keywords <| .nil _
  exact takes_decodeRecord (by decide) (by simp [UInt32.size]) wrote rfl

/-- A storable record is taken as it was written, with its type. -/
theorem takes_typed {record : Record} (storable : record.IsStorable) (room : Nat) :
    Takes (decodeTyped (room + 3)) (encodeTyped record) record := by
  cases record with
  | armor armor =>
    apply takes_decodeVariant
    case found => rfl
    case short => decide
    case taken => exact (takes_armor storable room).map Record.armor
  | keyword =>
    have wrote : Written ([] : List (RecordField Unit)) (room + 2) [] () () := .nil ()
    have payload : Takes (decodeRecord ([] : List (RecordField Unit)) () (fun _ => some .keyword)
        (room + 3)) (encodeRecord []) Record.keyword :=
      takes_decodeRecord (by decide) (by simp [UInt32.size]) wrote rfl
    apply takes_decodeVariant
    case found => rfl
    case short => decide
    case taken => exact payload

/-- An editor ID that is not too long, or none, is taken as it was written. -/
theorem takes_editorId {editorId : Option String}
    (storable : ∀ text ∈ editorId, text.utf8ByteSize < UInt32.size) (room : Nat) :
    Takes (decodeOption decodeText room) (encodeEditorId editorId) editorId := by
  cases editorId with
  | none => exact takes_decodeOption_none decodeText room
  | some text =>
    have short := storable text rfl
    exact takes_decodeOption_some (takes_decodeText short room) (takes_encodeText short) nofun

/-- A storable form is taken as it was written. -/
theorem takes_form {form : Form} (storable : form.IsStorable) (room : Nat) :
    Takes (decodeForm (room + 4)) (encodeForm form) form := by
  have editorId := (takes_editorId storable.editorId (room + 3)).map
    fun text (parts : FormParts) => { parts with editorId := some text }
  have record := (takes_typed storable.record room).map
    fun record (parts : FormParts) => { parts with record := some record }
  have wrote : Written formFields (room + 3) [("editor_id", _), ("record", _)] {} _ :=
    .cons rfl rfl editorId <| .cons rfl rfl record <| .nil _
  exact takes_decodeRecord (by decide) (by simp [UInt32.size]) wrote rfl

/-- A storable store is taken as it was written. -/
theorem takes_store {store : Store} (storable : store.IsStorable) (room : Nat) :
    Takes (decodeStore (room + 6)) (encodeStore store) store := by
  have names : Takes (decodeArray decodeText (room + 5)) _ store.plugins :=
    takes_decodeArray storable.count
      fun plugin member => takes_decodeText (storable.plugins plugin member) (room + 4)
  have entries : Takes (decodeMap decodeReference decodeForm (room + 5))
      (encodeForms store.forms.entries) store.forms.entries := by
    refine takes_decodeMap storable.size fun entry member => ?_
    obtain ⟨reference, form⟩ := storable.forms entry member
    exact ⟨_, _, rfl, takes_reference reference (room + 3), takes_form form room⟩
  have plugins := names.map
    fun plugins (parts : StoreParts) => { parts with plugins := some plugins }
  have forms := entries.map
    fun forms (parts : StoreParts) => { parts with forms := some forms }
  have wrote : Written storeFields (room + 5) [("plugins", _), ("forms", _)] {} _ :=
    .cons rfl rfl plugins <| .cons rfl rfl forms <| .nil _
  have complete : some (Store.mk store.plugins (.ofList store.forms.entries)) = some store := by
    rw [OrderedMap.ofList_entries]
  exact takes_decodeRecord (by decide) (by simp [UInt32.size]) wrote complete

/-- A snapshot is taken as its version and its store. -/
theorem takes_encode {store : Store} (storable : store.IsStorable) :
    Takes (decodeRecord fields {} (fun parts => do
      let version ← parts.version
      let store ← parts.store
      some (version, store)) mostNesting) (encode store) (1, store) := by
  have number := (takes_decodeWord 1 1022).map
    fun word (parts : Parts) => { parts with version := some word }
  have content := (takes_store storable 1016).map
    fun store (parts : Parts) => { parts with store := some store }
  have wrote : Written fields 1022 [("version", _), ("store", _)] {} _ :=
    .cons rfl rfl number <| .cons rfl rfl content <| .nil _
  exact takes_decodeRecord (by decide) (by simp [UInt32.size]) wrote rfl

end Parts

/-- A snapshot of a storable store gives the store again, whatever stands behind it. -/
theorem decode_encode {store : Store} (storable : store.IsStorable) (tail : Bytes) :
    decode (encode store ++ tail) = .ok store := by
  rw [decode]
  simp only [(takes_encode storable).whole tail]
  rfl

/-- Writing does not confuse two stores. -/
theorem encode_injective {left right : Store} (storable : left.IsStorable)
    (storable' : right.IsStorable) (same : encode left = encode right) : left = right := by
  have first := decode_encode storable []
  have second := decode_encode storable' []
  rw [same, second] at first
  exact (Except.ok.inj first).symm

/-- Bytes that end too early are refused wherever the cut is made. -/
theorem decode_of_strictPrefix {store : Store} (storable : store.IsStorable) {front : Bytes}
    (short : front <+: encode store) (strict : front ≠ encode store) :
    decode front = .error .malformed := by
  rw [decode]
  simp only [(takes_encode storable).cut front short strict]

end Snapshot

/-- The snapshot of a store is read as that store, whatever bytes follow it, and two stores have two
snapshots. -/
theorem roundTrip_of_snapshots (store : Store) (storable : store.IsStorable) :
    (∀ tail, Snapshot.decode (Snapshot.encode store ++ tail) = .ok store) ∧
      ∀ other : Store, other.IsStorable → Snapshot.encode other = Snapshot.encode store →
        other = store :=
  ⟨Snapshot.decode_encode storable,
    fun _ storable' same => Snapshot.encode_injective storable' storable same⟩

/-- A store with names of several alphabets, plugins that differ in letter case only, a value that
is no number, a negative zero, an empty editor ID and an absent one. -/
def mixedStore : Store where
  plugins := ["Überall.esp", "", "A.esp"]
  forms :=
    { entries :=
        [(⟨"a.ESP", 0x80⟩, ⟨none, .keyword⟩),
          (⟨"A.esp", 0x10000⟩, ⟨some "", .armor
            { fullName := "\u6587"
              slots := 0xFFFFFFFF
              rating := .ofBits .single 0xFFC00001
              weight := .ofBits .single 0x80000000
              value := 0x7F
              keywords := [⟨"a.esp", 0x80⟩, ⟨"A.ESP", 0xFF⟩] }⟩)]
      ascending := by decide +kernel }

/-- The store of both kinds of records can be written. -/
theorem isStorable_mixedStore : mixedStore.IsStorable where
  count := by decide
  plugins := by decide
  size := by decide
  forms := by
    intro entry member
    rcases List.mem_cons.1 member with rfl | member
    · exact ⟨by decide, ⟨nofun, trivial⟩⟩
    · obtain rfl := List.mem_singleton.1 member
      refine ⟨by decide, ⟨by decide, ?_⟩⟩
      exact ⟨by decide, by decide, by decide⟩

/-- The mixed store survives, and bytes behind it are ignored. -/
theorem roundTrip_of_mixedStore :
    mixedStore.IsStorable ∧
      Snapshot.decode (Snapshot.encode mixedStore ++ [0xC1]) = .ok mixedStore :=
  ⟨isStorable_mixedStore, (roundTrip_of_snapshots mixedStore isStorable_mixedStore).1 [0xC1]⟩

/-- A snapshot that breaks off, wherever that is, is refused as malformed. -/
theorem truncation_of_snapshots (store : Store) (storable : store.IsStorable)
    (front : MessagePack.Bytes) (short : front <+: Snapshot.encode store)
    (strict : front ≠ Snapshot.encode store) :
    (Snapshot.decode front).mapError Snapshot.Fault.failure =
      .error (.serialization Snapshot.Fault.malformed.message) := by
  rw [Snapshot.decode_of_strictPrefix storable short strict]
  rfl

/-- The mixed store is not read when the last byte of its snapshot is missing. -/
theorem truncation_of_mixedStore :
    mixedStore.IsStorable ∧
      (Snapshot.encode mixedStore).dropLast <+: Snapshot.encode mixedStore ∧
      (Snapshot.encode mixedStore).dropLast ≠ Snapshot.encode mixedStore ∧
      (Snapshot.decode (Snapshot.encode mixedStore).dropLast).mapError Snapshot.Fault.failure =
        .error (.serialization "malformed snapshot") := by
  have short := List.dropLast_prefix (Snapshot.encode mixedStore)
  have strict : (Snapshot.encode mixedStore).dropLast ≠ Snapshot.encode mixedStore := by
    intro same
    have shorter := congrArg List.length same
    have some : 0 < (Snapshot.encode mixedStore).length := by decide +kernel
    rw [List.length_dropLast] at shorter
    omega
  exact ⟨isStorable_mixedStore, short, strict,
    truncation_of_snapshots mixedStore isStorable_mixedStore _ short strict⟩

end FormPatch
