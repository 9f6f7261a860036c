import FormPatch.Proofs.Syntax.Branches
import FormPatch.Proofs.Token.Words

/-!
# Readers and written texts

A reader reads a text as a value before a given rest when it answers that value wherever the words
of the text and of the rest stand, takes the words of the text and leaves those of the rest. The
law of a composed reader follows from the laws of its parts, one after the other.

The rest is part of the law because a run of characters is a word only where the text behind it
breaks the run, and because some readers look at the word behind what they take.
-/

namespace FormPatch

/-- Whether a text does not start with a word. -/
def Apart (mark rest : String) : Prop := (words rest).head? ≠ some mark

/-- A text that starts with one word does not start with another. -/
theorem apart_of_stands {mark word rest : String} (stands : Stands word rest)
    (other : word ≠ mark) : Apart mark (word ++ rest) := by
  rw [Apart, stands.head?]
  simpa using other

namespace Syntax

namespace Cursor

/-- The words that are left. -/
def words (cursor : Cursor) : List String := cursor.rest.map Token.text

/-- The words of a cursor at the start of a text are those of the text. -/
theorem words_ofText (source : String) : (ofText source).words = FormPatch.words source := rfl

/-- Looking ahead leaves the words. -/
@[simp] theorem words_look (cursor : Cursor) : cursor.look.words = cursor.words := by
  rw [words, rest_look, words]

/-- Taking a token takes the first word. -/
theorem words_take (cursor : Cursor) : cursor.take.words = cursor.words.tail := by
  rw [words, rest_take, List.map_tail, words]

/-- Nothing is left exactly when no words are. -/
theorem rest_eq_nil {cursor : Cursor} : cursor.rest = [] ↔ cursor.words = [] := by
  rw [words, List.map_eq_nil_iff]

/-- The first of the words that are left is the next word. -/
theorem word_of_words {cursor : Cursor} {word : String} {others : List String}
    (left : cursor.words = word :: others) : cursor.word = word := by
  obtain ⟨rest, shown⟩ := cursor
  cases rest with
  | nil => cases left
  | cons token rest => exact (List.cons.inj left).1

/-- Where another word or none is left first, the next word is another one. -/
theorem word_ne_of_words {cursor : Cursor} {mark : String} (named : mark ≠ "")
    (apart : cursor.words.head? ≠ some mark) : cursor.word ≠ mark := by
  obtain ⟨rest, shown⟩ := cursor
  cases rest with
  | nil => exact named.symm
  | cons token rest =>
    intro same
    exact apart (congrArg some same)

end Cursor

namespace Reader

variable {α β : Type}

/-- A reader reads a text as a value before a rest. -/
def Reads (reader : Reader α) (text : String) (value : α) (rest : String) : Prop :=
  ∀ cursor : Cursor, cursor.words = words (text ++ rest) →
    ∃ after, reader.run cursor = .read value after ∧ after.words = words rest

section Sequence

variable {reader : Reader α} {next : α → Reader β} {front behind text rest : String} {first : α}
  {value : β}

/-- Texts one behind the other are read by readers one behind the other. -/
theorem Reads.bind (head : reader.Reads front first (behind ++ rest))
    (tail : (next first).Reads behind value rest) :
    (reader >>= next).Reads (front ++ behind) value rest := by
  intro cursor left
  rw [String.append_assoc] at left
  obtain ⟨middle, ran, left⟩ := head cursor left
  obtain ⟨after, ran', left⟩ := tail middle left
  exact ⟨after, bind_eq_read.2 ⟨first, middle, ran, ran'⟩, left⟩

/-- The reader behind one that took the whole text takes nothing. -/
theorem Reads.last (head : reader.Reads text first rest) (tail : (next first).Reads "" value rest) :
    (reader >>= next).Reads text value rest := by
  have whole := Reads.bind (by rwa [String.empty_append]) tail
  rwa [String.append_empty] at whole

/-- The reader behind one that took nothing takes the whole text. -/
theorem Reads.ahead (head : reader.Reads "" first (text ++ rest))
    (tail : (next first).Reads text value rest) : (reader >>= next).Reads text value rest := by
  have whole := head.bind tail
  rwa [String.empty_append] at whole

end Sequence

/-- An answer at once is read from the empty text. -/
theorem reads_pure (value : α) (rest : String) : (pure value : Reader α).Reads "" value rest := by
  intro cursor left
  rw [String.empty_append] at left
  exact ⟨cursor, rfl, left⟩

/-- Blanks in front of a text do not matter. -/
theorem Reads.blank {reader : Reader α} {blanks text rest : String} {value : α}
    (blank : isBlankText blanks = true) (reads : reader.Reads text value rest) :
    reader.Reads (blanks ++ text) value rest := by
  intro cursor left
  rw [String.append_assoc, words_blank blank] at left
  exact reads cursor left

/-- A word that stands is read as the next one. -/
theorem reads_next {word rest : String} (stands : Stands word rest) :
    next.Reads word word rest := by
  intro cursor left
  rw [stands] at left
  exact ⟨cursor.take, next_eq_read.2 ⟨Cursor.word_of_words left, rfl⟩, by
    rw [Cursor.words_take, left, List.tail_cons]⟩

/-- A word that stands is looked at without being taken. -/
theorem reads_peek {word rest : String} (stands : Stands word rest) :
    peek.Reads "" word (word ++ rest) := by
  intro cursor left
  rw [String.empty_append] at left
  refine ⟨cursor.look, ?_, by rw [Cursor.words_look, left]⟩
  rw [stands] at left
  simp only [peek, Cursor.word_of_words left]

/-- A condition that is met is read from the empty text. -/
theorem reads_require {condition : Bool} {fault : Fault} (met : condition = true) (rest : String) :
    (require condition fault).Reads "" () rest := by
  rw [require, if_pos met]
  exact reads_pure () rest

/-- A word that stands is read where it is expected. -/
theorem reads_expect {mark rest : String} (stands : Stands mark rest) :
    (expect mark).Reads mark () rest := by
  refine (reads_next stands).last ?_
  rw [if_pos rfl]
  exact reads_pure () rest

/-- A word that stands is accepted. -/
theorem reads_accept {mark rest : String} (stands : Stands mark rest) :
    (accept mark).Reads mark true rest := by
  refine (reads_peek stands).ahead ?_
  rw [if_pos rfl]
  exact (reads_next stands).last (reads_pure true rest)

/-- A word that does not stand first is not accepted. -/
theorem reads_accept_of_apart {mark rest : String} (named : mark ≠ "") (apart : Apart mark rest) :
    (accept mark).Reads "" false rest := by
  intro cursor left
  rw [String.empty_append] at left
  refine ⟨cursor.look, run_accept_of_ne ?_, by rw [Cursor.words_look, left]⟩
  exact Cursor.word_ne_of_words named (by rwa [left])

section Items

variable {mark gap : String} {named : mark ≠ ""} {item : Reader α} {text : α → String}

/-- Items are read one after the other when a written gap stands for the mark in front of each
one, and each one is read wherever a run is broken. -/
theorem reads_afterEach {values : List α} {rest : String}
    (marks : ∀ later, words (gap ++ later) = mark :: words later) (broken : breaks gap = true)
    (items : ∀ value ∈ values, ∀ later, breaks later = true → item.Reads (text value) value later)
    (apart : Apart mark rest) (ends : breaks rest = true) :
    (afterEach mark named item).Reads (String.join (values.map fun value => gap ++ text value))
      values rest := by
  induction values with
  | nil =>
    intro cursor left
    rw [List.map_nil, String.join_nil, String.empty_append] at left
    have other := Cursor.word_ne_of_words named (by rwa [left])
    exact ⟨cursor.look, run_afterEach_of_ne other, by rw [Cursor.words_look, left]⟩
  | cons value others ih =>
    have later := ih fun other member => items other (List.mem_cons_of_mem _ member)
    have follows : breaks (String.join (others.map fun value => gap ++ text value) ++ rest) =
        true := by
      cases others with
      | nil => simpa using ends
      | cons other others =>
        simp only [List.map_cons, String.join_cons, String.append_assoc]
        exact breaks_append broken _
    have whole : (item >>= fun value => afterEach mark named item >>= fun others =>
        pure (value :: others)).Reads
          (text value ++ String.join (others.map fun value => gap ++ text value))
          (value :: others) rest :=
      (items value List.mem_cons_self _ follows).bind (later.last (reads_pure _ rest))
    intro cursor left
    simp only [List.map_cons, String.join_cons, String.append_assoc] at left
    rw [marks] at left
    obtain ⟨after, ran, left'⟩ := whole cursor.take
      (by rw [Cursor.words_take, left, List.tail_cons, String.append_assoc])
    exact ⟨after, (run_afterEach_of_word (Cursor.word_of_words left)).trans ran, left'⟩

end Items

end Reader

namespace Tolerant

variable {α β : Type}

/-- A tolerant reader reads a text as a value before a rest when it comes over nothing. -/
def Reads (reader : Tolerant α) (text : String) (value : α) (rest : String) : Prop :=
  ∀ cursor : Cursor, cursor.words = words (text ++ rest) →
    ∃ after, reader.run cursor = ⟨[], .read value after⟩ ∧ after.words = words rest

/-- A tolerant reader reads what the strict one does. -/
theorem reads_ofReader {reader : Reader α} {text rest : String} {value : α}
    (reads : reader.Reads text value rest) : (ofReader reader).Reads text value rest := by
  intro cursor left
  obtain ⟨after, ran, left⟩ := reads cursor left
  exact ⟨after, ofReader_eq_read.2 ⟨ran, rfl⟩, left⟩

/-- An answer at once over no faults is read from the empty text. -/
theorem reads_pure (value : α) (rest : String) : (pure value : Tolerant α).Reads "" value rest :=
  reads_ofReader (Reader.reads_pure value rest)

section Sequence

variable {reader : Tolerant α} {next : α → Tolerant β} {front behind text rest : String}
  {first : α} {value : β}

/-- Texts one behind the other are read by readers one behind the other. -/
theorem Reads.bind (head : reader.Reads front first (behind ++ rest))
    (tail : (next first).Reads behind value rest) :
    (reader >>= next).Reads (front ++ behind) value rest := by
  intro cursor left
  rw [String.append_assoc] at left
  obtain ⟨middle, ran, left⟩ := head cursor left
  obtain ⟨after, ran', left⟩ := tail middle left
  exact ⟨after, bind_eq_read.2 ⟨[], first, middle, [], ran, ran', rfl⟩, left⟩

/-- The reader behind one that took the whole text takes nothing. -/
theorem Reads.last (head : reader.Reads text first rest) (tail : (next first).Reads "" value rest) :
    (reader >>= next).Reads text value rest := by
  have whole := Reads.bind (by rwa [String.empty_append]) tail
  rwa [String.append_empty] at whole

/-- The reader behind one that took nothing takes the whole text. -/
theorem Reads.ahead (head : reader.Reads "" first (text ++ rest))
    (tail : (next first).Reads text value rest) : (reader >>= next).Reads text value rest := by
  have whole := head.bind tail
  rwa [String.empty_append] at whole

end Sequence

/-- Blanks in front of a text do not matter. -/
theorem Reads.blank {reader : Tolerant α} {blanks text rest : String} {value : α}
    (blank : isBlankText blanks = true) (reads : reader.Reads text value rest) :
    reader.Reads (blanks ++ text) value rest := by
  intro cursor left
  rw [String.append_assoc, words_blank blank] at left
  exact reads cursor left

end Tolerant

end Syntax

end FormPatch
