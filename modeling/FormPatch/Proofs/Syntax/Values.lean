import FormPatch.Proofs.Number.Written
import FormPatch.Proofs.Syntax.Answers
import FormPatch.Syntax.Value

/-!
# Values that are written and read

Each kind of value is read back from its written form. The other way round, a value that is read
from a text has a written form of its kind: what a string literal holds is quotable, a form
reference names a plugin and a hexadecimal number, and an integer fits 64 bits.
-/

namespace FormPatch

open Syntax

/-- A written form reference: the name of a plugin, a bar and a run of hexadecimal digits. -/
def IsForm (reference : String) : Prop :=
  ∃ plugin number, reference = plugin ++ ("|" ++ number) ∧ plugin ≠ "" ∧
    isQuotable plugin = true ∧ Text.isHexRun number.toList = true

namespace Syntax

/-- A list is split in front of the first item that does not hold. -/
theorem span_append {holds : Char → Bool} {front : List Char} {stop : Char}
    (all : ∀ item ∈ front, holds item = true) (ends : holds stop = false) (behind : List Char) :
    (front ++ stop :: behind).span holds = (front, stop :: behind) := by
  have step (item : Char) (later seen : List Char) : List.span.loop holds (item :: later) seen =
      if holds item then List.span.loop holds later (item :: seen)
      else (seen.reverse, item :: later) := by
    show (match holds item with
      | true => List.span.loop holds later (item :: seen)
      | false => (seen.reverse, item :: later)) = _
    cases holds item <;> rfl
  have loop (seen : List Char) : List.span.loop holds (front ++ stop :: behind) seen =
      (seen.reverse ++ front, stop :: behind) := by
    induction front generalizing seen with
    | nil => simp [step, ends]
    | cons item others ih =>
      rw [List.forall_mem_cons] at all
      simp [step, all.1, ih all.2]
  exact loop []

/-- The last bar stands in front of a text without bars. -/
theorem splitLastBar_append {plugin number : String} (apart : '|' ∉ number.toList) :
    splitLastBar (plugin ++ ("|" ++ number)) = some (plugin, number) := by
  have reversed : (plugin ++ ("|" ++ number)).toList.reverse =
      number.toList.reverse ++ '|' :: plugin.toList.reverse := by simp
  have others : ∀ character ∈ number.toList.reverse, (character != '|') = true := by
    intro character member
    rw [bne_iff_ne]
    rintro rfl
    exact apart (List.mem_reverse.1 member)
  have split := span_append others (by decide : ('|' != '|') = false) plugin.toList.reverse
  simp only [splitLastBar, reversed, split]
  simp

/-- How a form reference is written. -/
theorem formText_append {plugin number : String} (run : Text.isHexRun number.toList = true) :
    formText (plugin ++ ("|" ++ number)) = inQuotes plugin ++ ("|" ++ number) := by
  have apart : '|' ∉ number.toList := Text.not_mem_of_isHexRun run (by decide)
  simp only [formText, splitLastBar_append apart]
  apply String.toList_inj.1
  simp [inQuotes, toString]

namespace Reader

variable {α : Type} {rest : String}

/-- A string that may stand in quotes is read from between them. -/
theorem reads_string {text : String} (quotable : isQuotable text = true) :
    string.Reads (inQuotes text) text rest := by
  refine (reads_next (stands_inQuotes quotable rest)).last ?_
  rw [Token.unquote?_inQuotes]
  exact reads_pure text rest

/-- Every string that is read may stand in quotes. -/
theorem answers_string : string.Answers fun text => isQuotable text = true := by
  refine answers_next.bind fun found quotable => ?_
  cases unquoted : Token.unquote? found with
  | none => exact answers_fail _
  | some text => exact answers_pure (quotable text unquoted)

/-- A form reference is read back when the text behind it breaks a run. -/
theorem reads_form {reference : String} (valid : IsForm reference) (broken : breaks rest = true) :
    form.Reads (formText reference) reference rest := by
  obtain ⟨plugin, number, rfl, named, quotable, run⟩ := valid
  have word : isWord number = true := by
    have hexadecimal := Text.isWord_of_isHexRun run
    rwa [String.ofList_toList] at hexadecimal
  have bare := Text.dropHexMark_of_isHexRun run
  have same : s!"{plugin}|{Text.stripHexMark number}" = plugin ++ ("|" ++ number) := by
    apply String.toList_inj.1
    simp [toString, Text.stripHexMark, bare]
  rw [formText_append run, form, ← same]
  refine (reads_string quotable).bind ?_
  refine (reads_require (by simpa using named) _).ahead ?_
  refine (reads_expect (stands_mark (by decide) _)).bind ?_
  refine (reads_next (stands_word word broken)).last ?_
  exact (reads_require (by rwa [Text.isHexNumber, bare]) _).ahead (reads_pure _ rest)

/-- A form reference that is read names a plugin and a number. -/
theorem answers_form : form.Answers IsForm := by
  refine answers_string.bind fun plugin quotable => ?_
  refine (answers_require _ _).bind fun _ named => ?_
  refine .after fun _ => .after fun number => (answers_require _ _).bind fun _ hexadecimal => ?_
  refine answers_pure ⟨plugin, Text.stripHexMark number, ?_, by simpa using named, quotable, ?_⟩
  · apply String.toList_inj.1
    simp [toString]
  · simpa [Text.stripHexMark, Text.isHexNumber] using hexadecimal

/-- A sign is told from the digits behind it. -/
theorem splitSign_signedDigits (negative : Bool) {digits : List Char}
    (run : Text.isDecimal digits = true) :
    splitSign (Number.signedDigits negative digits).toList = (negative, digits) := by
  rw [Number.signedDigits, String.toList_ofList]
  cases negative with
  | true => rfl
  | false =>
    rw [if_neg (by decide), List.nil_append]
    unfold splitSign
    split
    · simp [Text.isDecimal] at run
    · rfl

/-- Written digits are read as the number nearest to their decimal. -/
theorem reads_writtenDigits (negative : Bool) {whole fraction : List Char}
    (run : Text.isDecimal whole = true)
    (pointed : fraction ≠ [] → Text.isDecimal fraction = true)
    (ends : endsRuns rest = true) (apart : Apart "." rest) :
    number.Reads (Number.writtenDigits negative whole fraction)
      (.ofDecimal .double negative (.ofDigits whole fraction)) rest := by
  have word := Number.isWord_signedDigits negative run
  have sign := splitSign_signedDigits negative run
  unfold Number.writtenDigits number
  split
  · next pointless =>
    rw [pointless, String.append_empty]
    refine (reads_next (stands_run word ends)).last ?_
    rw [sign]
    refine (reads_require run _).ahead ((reads_accept_of_apart (by decide) apart).last ?_)
    exact reads_pure _ rest
  · next some =>
    have digits := pointed some
    have spelled : (String.ofList fraction).toList = fraction := String.toList_ofList
    refine (reads_next (stands_word word ?_)).bind ?_
    · rw [String.append_assoc]
      exact breaks_append (by decide) _
    rw [sign]
    refine (reads_require run _).ahead ((reads_accept (stands_mark (by decide) _)).bind ?_)
    have last := stands_run (Text.isWord_of_isHexRun (Text.isHexRun_of_isDecimal digits)) ends
    refine (reads_next last).last ((reads_require (by rwa [spelled]) _).ahead ?_)
    rw [spelled]
    exact reads_pure _ rest

/-- A finite number is read back when neither a run nor a point follows. -/
theorem reads_number {value : Number.Double} (finite : value.isFinite = true)
    (ends : endsRuns rest = true) (apart : Apart "." rest) :
    number.Reads value.text value rest := by
  have reads := reads_writtenDigits value.negative value.decimal.isDecimal_whole
    value.decimal.isDecimal_fraction ends apart
  rwa [Number.Decimal.ofDigits_whole_fraction, Number.Binary.ofDecimal_decimal finite,
    ← Number.Binary.text_of_isFinite finite] at reads

/-- An integer in range is read from its digits. -/
theorem reads_integer {value : Int} (fits : fitsInteger value = true)
    (broken : breaks rest = true) : integer.Reads value.repr value rest := by
  refine (reads_next (stands_word (Text.isWord_intRepr value) broken)).last ?_
  rw [Text.integer?_repr]
  simp only [fits, ↓reduceIte]
  exact reads_pure value rest

/-- Every integer that is read is in range. -/
theorem answers_integer : integer.Answers fun value => fitsInteger value = true := by
  refine .after fun found => ?_
  cases Text.integer? found.toList with
  | none => exact answers_fail _
  | some value =>
    simp only
    split
    · next fits => exact answers_pure fits
    · exact answers_fail _

/-- A writable slot is read from its digits. -/
theorem reads_slot {value : Nat} (writable : Slot.isWritable value = true)
    (broken : breaks rest = true) : slot.Reads (Nat.repr value) value rest := by
  refine (reads_next (stands_word (Text.isWord_natRepr value) broken)).last ?_
  rw [Text.natural?_repr]
  simp only [writable, ↓reduceIte]
  exact reads_pure value rest

/-- Values with gaps between them are the first one and the others behind a gap each. -/
theorem intercalate_cons (gap first : String) (others : List String) :
    gap.intercalate (first :: others) = first ++ String.join (others.map (gap ++ ·)) := by
  induction others generalizing first with
  | nil => simp
  | cons second others ih =>
    rw [String.intercalate_cons_cons, ih, List.map_cons, String.join_cons, String.append_assoc,
      String.append_assoc]

section Items

variable {β : Type} {item : Reader α} {text : α → String} {values : List α}

/-- Items with written gaps between them are read, and then what stands behind them. -/
theorem reads_separated {mark gap tail : String} {named : mark ≠ ""} (next : List α → Reader β)
    {value : β} (some : values ≠ [])
    (marks : ∀ later, words (gap ++ later) = mark :: words later) (broken : breaks gap = true)
    (items : ∀ value ∈ values, ∀ later, breaks later = true → item.Reads (text value) value later)
    (apart : Apart mark (tail ++ rest)) (ends : breaks (tail ++ rest) = true)
    (last : (next values).Reads tail value rest) :
    (item >>= fun first => afterEach mark named item >>= fun others => next (first :: others)).Reads
      (gap.intercalate (values.map text) ++ tail) value rest := by
  cases values with
  | nil => exact absurd rfl some
  | cons first others =>
    have follows : breaks (String.join (others.map fun value => gap ++ text value) ++
        (tail ++ rest)) = true := by
      cases others with
      | nil => simpa using ends
      | cons other others =>
        simp only [List.map_cons, String.join_cons, String.append_assoc]
        exact breaks_append broken _
    rw [List.map_cons, intercalate_cons, List.map_map, String.append_assoc]
    refine (items first List.mem_cons_self _ (by rwa [String.append_assoc])).bind ?_
    exact (reads_afterEach marks broken
      (fun value member => items value (List.mem_cons_of_mem _ member)) apart ends).bind last

/-- Arguments between commas are read back up to and with the parenthesis behind them. -/
theorem reads_arguments (some : values ≠ [])
    (items : ∀ value ∈ values, ∀ later, breaks later = true →
      item.Reads (text value) value later) :
    (arguments item).Reads (", ".intercalate (values.map text) ++ ")") values rest := by
  have marks (later : String) : words (", " ++ later) = "," :: words later := by
    rw [show ", " = "," ++ " " from rfl, String.append_assoc, stands_mark (by decide),
      words_blank (by decide)]
  have closes : (expect ")" >>= fun _ => pure values).Reads ")" values rest :=
    (reads_expect (stands_mark (by decide) rest)).last (reads_pure values rest)
  have broken : breaks ", " = true := by decide
  have apart : Apart "," (")" ++ rest) :=
    apart_of_stands (stands_mark (by decide) rest) (by decide)
  exact reads_separated (fun values => expect ")" >>= fun _ => pure values) some marks broken items
    apart (breaks_append (by decide) rest) closes

/-- Arguments are never empty, and each of them has the property of items. -/
theorem answers_arguments {places : Cursor → Prop} [Cursor.Inherited places] {good : α → Prop}
    (items : item.AnswersFrom places good) :
    (arguments item).AnswersFrom places fun values =>
      values ≠ [] ∧ ∀ value ∈ values, good value := by
  refine items.bind fun first holds => (answers_afterEach items).bind fun others hold => ?_
  exact .after fun _ => answers_pure
    ⟨List.cons_ne_nil _ _, List.forall_mem_cons.2 ⟨holds, hold⟩⟩

end Items

end Reader

end Syntax

end FormPatch
