import FormPatch.MessagePack.Decoder

/-!
# Heads that are taken as they were written

What is written by a writer is taken by its reader, whatever follows it, and where it breaks off
nothing is taken. The law is proved once for readers in a row and then for the numbers, the strings
and the heads of which MessagePack values are made.

Main statements: the writers of heads write what `Head.take` takes.
-/

namespace FormPatch.MessagePack

open scoped Number

variable {α β : Type}

/-- Whether a reader takes exactly some bytes, as a value. -/
structure Takes (reader : Bytes → Option (α × Bytes)) (bytes : Bytes) (value : α) : Prop where
  /-- Whatever follows the bytes is left. -/
  whole : ∀ tail, reader (bytes ++ tail) = some (value, tail)
  /-- Where the bytes break off nothing is taken. -/
  cut : ∀ front, front <+: bytes → front ≠ bytes → reader front = none

namespace Takes

/-- Readers that do the same take the same. -/
theorem congr {reader other : Bytes → Option (α × Bytes)} {bytes : Bytes} {value : α}
    (taken : Takes other bytes value) (same : ∀ rest, reader rest = other rest) :
    Takes reader bytes value :=
  (funext same : reader = other) ▸ taken

/-- A reader that takes nothing and knows its value. -/
theorem nothing (value : α) : Takes (fun bytes => some (value, bytes)) [] value where
  whole _ := rfl
  cut _ short apart := absurd (List.prefix_nil.1 short) apart

/-- Readers in a row take what they take one after the other. -/
theorem bind {reader : Bytes → Option (α × Bytes)} {next : α × Bytes → Option (β × Bytes)}
    {first second : Bytes} {value : α} {result : β} (front : Takes reader first value)
    (behind : Takes (fun rest => next (value, rest)) second result) :
    Takes (fun bytes => reader bytes >>= next) (first ++ second) result where
  whole tail := by
    show reader (first ++ second ++ tail) >>= next = _
    rw [List.append_assoc, front.whole]
    exact behind.whole tail
  cut short isPrefix apart := by
    rcases List.prefix_or_prefix_of_prefix isPrefix (List.prefix_append first second) with
      inside | ⟨rest, rfl⟩
    · by_cases same : short = first
      · -- Nothing is left for the second reader, which needs something.
        subst same
        have none := behind.cut [] List.nil_prefix fun empty => apart (by simp [← empty])
        have taken := front.whole []
        rw [List.append_nil] at taken
        show reader short >>= next = _
        rw [taken]
        exact none
      · show reader short >>= next = _
        rw [front.cut short inside same]
        rfl
    · have rest' : rest <+: second := (List.prefix_append_right_inj first).1 isPrefix
      have none := behind.cut rest rest' fun same => apart (by rw [same])
      show reader (first ++ rest) >>= next = _
      rw [front.whole]
      exact none

/-- What was taken is turned into another value. -/
theorem last {reader : Bytes → Option (α × Bytes)} {next : α × Bytes → Option (β × Bytes)}
    {bytes : Bytes} {value : α} {result : β} (front : Takes reader bytes value)
    (turned : ∀ rest, next (value, rest) = some (result, rest)) :
    Takes (fun bytes => reader bytes >>= next) bytes result := by
  have behind : Takes (fun rest => next (value, rest)) [] result := by
    simp only [turned]
    exact nothing result
  simpa only [List.append_nil] using front.bind behind

/-- A value that is taken may be changed behind the taking. -/
theorem map {reader : Bytes → Option (α × Bytes)} {bytes : Bytes} {value : α}
    (taken : Takes reader bytes value) (change : α → β) :
    Takes (fun bytes => (reader bytes).map fun (value, rest) => (change value, rest)) bytes
      (change value) where
  whole tail := by rw [taken.whole]; rfl
  cut front short apart := by rw [taken.cut front short apart]; rfl

/-- A first byte tells how the others are taken. -/
theorem cons {reader other : Bytes → Option (α × Bytes)} {byte : UInt8} {bytes : Bytes} {value : α}
    (taken : Takes other bytes value) (empty : reader [] = none)
    (goes : ∀ rest, reader (byte :: rest) = other rest) : Takes reader (byte :: bytes) value where
  whole tail := by
    rw [List.cons_append, goes]
    exact taken.whole tail
  cut front short apart := by
    cases front with
    | nil => exact empty
    | cons first front =>
      obtain ⟨rfl, inside⟩ := List.cons_prefix_cons.1 short
      rw [goes]
      exact taken.cut front inside fun same => apart (by rw [same])

end Takes

section Numbers

/-- A number of some width takes as many bytes. -/
theorem length_bytesOfNat (width value : Nat) : (bytesOfNat width value).length = width := by
  induction width with
  | zero => rfl
  | succ width ih => rw [bytesOfNat, List.length_cons, ih]

/-- The bytes of a number stand for it, up to the width they have. -/
theorem natOfBytes_bytesOfNat (width value : Nat) :
    natOfBytes (bytesOfNat width value) = value % 256 ^ width := by
  have shifted (front : Nat) : (bytesOfNat width value).foldl
      (fun value byte => value * 256 + byte.toNat) front =
        front * 256 ^ width + value % 256 ^ width := by
    induction width generalizing front with
    | zero => simp [bytesOfNat, Nat.mod_one]
    | succ width ih =>
      have byte : (UInt8.ofNat (value / 256 ^ width)).toNat = value / 256 ^ width % 256 :=
        UInt8.toNat_ofNat'
      rw [bytesOfNat, List.foldl_cons, ih, byte, Nat.pow_succ, Nat.mod_mul, Nat.add_mul,
        Nat.mul_assoc, Nat.mul_comm 256, Nat.mul_comm (_ % 256)]
      omega
  have whole := shifted 0
  rwa [Nat.zero_mul, Nat.zero_add] at whole

/-- Some bytes are taken as they are. -/
theorem takes_takeBytes (bytes : Bytes) : Takes (takeBytes bytes.length) bytes bytes where
  whole tail := by simp [takeBytes]
  cut front short apart := by
    have shorter : front.length < bytes.length :=
      Nat.lt_of_le_of_ne short.length_le fun same => apart (short.eq_of_length same)
    rw [takeBytes, if_neg]
    rw [List.length_take]
    omega

/-- A number is taken when it fits the bytes it was written in. -/
theorem takes_takeNat {width value : Nat} (fits : value < 256 ^ width) :
    Takes (takeNat width) (bytesOfNat width value) value := by
  have taken := (takes_takeBytes (bytesOfNat width value)).map natOfBytes
  rwa [length_bytesOfNat, natOfBytes_bytesOfNat, Nat.mod_eq_of_lt fits] at taken

/-- Values in a row are taken one after the other. -/
theorem takes_takeMany {item : Bytes → Option (α × Bytes)} {encode : α → Bytes} {values : List α}
    (each : ∀ value ∈ values, Takes item (encode value) value) :
    Takes (takeMany item values.length) (values.flatMap encode) values := by
  induction values with
  | nil => exact .nothing []
  | cons value values ih =>
    have others := ih fun value member => each value (List.mem_cons_of_mem _ member)
    rw [List.flatMap_cons]
    exact (each value List.mem_cons_self).bind (others.last fun _ => rfl)

end Numbers

namespace Head

/-- A number that fits its width is taken as it was written. -/
theorem takes_takeNumber {width value : Nat} (fits : value < 256 ^ width) (head : Nat → Head) :
    Takes (takeNumber width head) (bytesOfNat width value) (head value) :=
  (takes_takeNat fits).map head

/-- Bytes behind their number are taken as they were written. -/
theorem takes_takeSizedString {width : Nat} {bytes : Bytes} (fits : bytes.length < 256 ^ width)
    (head : Bytes → Head) :
    Takes (takeSizedString width head) (bytesOfNat width bytes.length ++ bytes) (head bytes) :=
  ((takes_takeNat fits).bind (takes_takeBytes bytes)).map head

/-- The first byte tells by its range what follows. -/
theorem take_ofNat {first : Nat} (byte : first < 256) (rest : Bytes) :
    take (UInt8.ofNat first :: rest) =
      if first < 0x80 then some (unsigned first, rest)
      else if first < 0x90 then some (map (first - 0x80), rest)
      else if first < 0xA0 then some (array (first - 0x90), rest)
      else if first < 0xC0 then takeString (first - 0xA0) text rest
      else if first < 0xE0 then takeWide first rest
      else some (signed ((first : Int) - 0x100), rest) := by
  have same : (UInt8.ofNat first).toNat = first := UInt8.toNat_ofNat_of_lt' byte
  rw [take]
  simp only [same]

/-- A head that lies in its first byte. -/
theorem takes_byte {byte : UInt8} {head : Head}
    (lies : ∀ rest, take (byte :: rest) = some (head, rest)) : Takes take [byte] head :=
  (Takes.nothing head).cons rfl lies

/-- A head with more bytes behind its first one. -/
theorem takes_cons {byte : UInt8} {bytes : Bytes} {head : Head}
    {other : Bytes → Option (Head × Bytes)} (taken : Takes other bytes head)
    (goes : ∀ rest, take (byte :: rest) = other rest) : Takes take (byte :: bytes) head :=
  taken.cons rfl goes

end Head

section Writers

open Head

/-- A number of one byte is that byte. -/
theorem bytesOfNat_one (value : Nat) : bytesOfNat 1 value = [UInt8.ofNat value] := by
  simp [bytesOfNat]

/-- The head for nothing is taken as it was written. -/
theorem takes_encodeNil : Takes take encodeNil .nil :=
  takes_byte fun _ => rfl

/-- A number that fits 64 bits is taken as it was written. -/
theorem takes_encodeNat {value : Nat} (fits : value < UInt64.size) :
    Takes take (encodeNat value) (.unsigned value) := by
  unfold encodeNat
  split
  · next small =>
    rw [bytesOfNat_one]
    refine takes_byte fun rest => ?_
    rw [take_ofNat (by omega), if_pos small]
  · split
    · next small => exact takes_cons (takes_takeNumber small _) fun _ => rfl
    · split
      · next small => exact takes_cons (takes_takeNumber small _) fun _ => rfl
      · split
        · next small => exact takes_cons (takes_takeNumber small _) fun _ => rfl
        · exact takes_cons (takes_takeNumber fits _) fun _ => rfl

/-- The head of a 32-bit number is taken as it was written. -/
theorem takes_encodeSingle (value : Number.Single) :
    Takes take (encodeSingle value) (.single value) := by
  have fits : value.toBits < 256 ^ 4 := value.toBits_lt
  have taken := takes_takeNumber fits fun bits => .single (.ofBits .single bits)
  rw [Number.Binary.ofBits_toBits] at taken
  exact takes_cons taken fun _ => rfl

/-- Heads of arrays announce fewer than two to the thirty-second values. -/
theorem takes_encodeArrayHead {count : Nat} (fits : count < UInt32.size) :
    Takes take (encodeArrayHead count) (.array count) := by
  unfold encodeArrayHead
  split
  · next small =>
    rw [bytesOfNat_one]
    refine takes_byte fun rest => ?_
    rw [take_ofNat (by omega), if_neg (by omega), if_neg (by omega), if_pos (by omega),
      Nat.add_sub_cancel_left]
  · split
    · next small => exact takes_cons (takes_takeNumber small _) fun _ => rfl
    · exact takes_cons (takes_takeNumber fits _) fun _ => rfl

/-- Heads of maps announce fewer than two to the thirty-second entries. -/
theorem takes_encodeMapHead {count : Nat} (fits : count < UInt32.size) :
    Takes take (encodeMapHead count) (.map count) := by
  unfold encodeMapHead
  split
  · next small =>
    rw [bytesOfNat_one]
    refine takes_byte fun rest => ?_
    rw [take_ofNat (by omega), if_neg (by omega), if_pos (by omega), Nat.add_sub_cancel_left]
  · split
    · next small => exact takes_cons (takes_takeNumber small _) fun _ => rfl
    · exact takes_cons (takes_takeNumber fits _) fun _ => rfl

/-- The bytes of a text. -/
def textBytes (text : String) : Bytes := text.toByteArray.data.toList

/-- Heads of texts announce fewer than two to the thirty-second bytes. -/
theorem takes_encodeText {text : String} (short : text.utf8ByteSize < UInt32.size) :
    Takes take (encodeText text) (.text (textBytes text)) := by
  have fits : (textBytes text).length < UInt32.size := short
  change Takes take (encodeTextHead (textBytes text).length ++ textBytes text) _
  unfold encodeTextHead
  split
  · next small =>
    rw [bytesOfNat_one]
    refine takes_cons ((takes_takeBytes (textBytes text)).map Head.text) fun rest => ?_
    rw [take_ofNat (by omega), if_neg (by omega), if_neg (by omega), if_neg (by omega),
      if_pos (by omega), Nat.add_sub_cancel_left]
    rfl
  · split
    · next small => exact takes_cons (takes_takeSizedString small _) fun _ => rfl
    · split
      · next small => exact takes_cons (takes_takeSizedString small _) fun _ => rfl
      · exact takes_cons (takes_takeSizedString fits _) fun _ => rfl

end Writers

end FormPatch.MessagePack
