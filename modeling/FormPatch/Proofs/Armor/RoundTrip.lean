import FormPatch.PatchFile
import FormPatch.Proofs.Armor.Slots
import FormPatch.Proofs.Statement.Answers

/-!
# Armor files that are written and read

An armor patch is valid when its filter has a form reference and its edits are edits of its field;
it can be written when its numbers are finite too. Main statement: the text of a tree of such
patches is read as that tree without a fault, whatever happens after faults, and every tree that is
read from a text is valid.
-/

namespace FormPatch

open Syntax Syntax.Reader

namespace ArmorFilter

/-- The reference in a filter. -/
def reference : ArmorFilter → String
  | form reference => reference
  | keyword reference => reference

/-- The word for a filter. -/
def word : ArmorFilter → String
  | form _ => "FilterByFormID"
  | keyword _ => "FilterByKeyword"

/-- A filter is written with one of two words. -/
theorem word_mem (filter : ArmorFilter) :
    filter.word ∈ ["FilterByFormID", "FilterByKeyword"] := by
  cases filter with
  | form reference => exact List.mem_cons_self
  | keyword reference => exact List.mem_cons_of_mem _ List.mem_cons_self

/-- The word for a filter is a single token. -/
theorem isWord_word (filter : ArmorFilter) : isWord filter.word = true :=
  (by decide : ∀ word ∈ ["FilterByFormID", "FilterByKeyword"], isWord word = true) _
    filter.word_mem

/-- No filter starts with a word of a chain or block. -/
theorem word_apart (filter : ArmorFilter) :
    filter.word ≠ "if" ∧ filter.word ≠ "else" ∧ filter.word ≠ "\x7d" := by
  have others : ∀ word ∈ ["FilterByFormID", "FilterByKeyword"],
      word ≠ "if" ∧ word ≠ "else" ∧ word ≠ "\x7d" := by decide
  exact others _ filter.word_mem

end ArmorFilter

namespace ArmorField

/-- The word for a field is a single token. -/
theorem isWord_word (field : ArmorField) : isWord field.word = true := by
  cases field <;> decide

/-- The word for a field stands for that field. -/
theorem ofWord?_word (field : ArmorField) : ofWord? field.word = some field := by
  cases field <;> decide

end ArmorField

namespace ArmorOperation

/-- An edit of a list of slots. -/
def IsSlotEdit : ArmorOperation → Prop
  | addSlots _ => True
  | removeSlots _ => True
  | clearSlots => True
  | _ => False

/-- An edit of a list of keywords; what is added or removed are form references, at least one. -/
def IsKeywordEdit : ArmorOperation → Prop
  | addKeywords references => references ≠ [] ∧ ∀ reference ∈ references, IsForm reference
  | removeKeywords references => references ≠ [] ∧ ∀ reference ∈ references, IsForm reference
  | clearKeywords => True
  | _ => False

/-- Which edits a field can have. -/
inductive Fits : ArmorField → List ArmorOperation → Prop
  /-- A set of slots takes the place of the old one. -/
  | setSlots (slots : SlotSet) : Fits .slots [setSlots slots]
  /-- Slots are added, removed or cleared, at least once. -/
  | editSlots {edits : List ArmorOperation} (some : edits ≠ [])
      (each : ∀ edit ∈ edits, edit.IsSlotEdit) : Fits .slots edits
  /-- A name that can stand in quotes is given. -/
  | setFullName {name : String} (quotable : isQuotable name = true) :
      Fits .fullName [setFullName name]
  /-- A rating is given. -/
  | setRating (rating : Number.Double) : Fits .rating [setRating rating]
  /-- A weight is given. -/
  | setWeight (weight : Number.Double) : Fits .weight [setWeight weight]
  /-- A value of 64 bits is given. -/
  | setValue {value : Int} (fits : fitsInteger value = true) : Fits .value [setValue value]
  /-- Keywords are added, removed or cleared, at least once. -/
  | editKeywords {edits : List ArmorOperation} (some : edits ≠ [])
      (each : ∀ edit ∈ edits, edit.IsKeywordEdit) : Fits .keywords edits

/-- Whether the number that an edit gives, if it gives one, is finite. -/
def isFinite : ArmorOperation → Bool
  | setRating rating => rating.isFinite
  | setWeight weight => weight.isFinite
  | _ => true

/-- An edit of a list as it is written behind its point. -/
def editText : ArmorOperation → String
  | addSlots slots => "Add" ++ ("(" ++ (slots.text ", " ++ ")"))
  | removeSlots slots => "Remove" ++ ("(" ++ (slots.text ", " ++ ")"))
  | addKeywords references => "Add" ++ ("(" ++ (referencesText references ++ ")"))
  | removeKeywords references => "Remove" ++ ("(" ++ (referencesText references ++ ")"))
  | _ => "Clear" ++ ("(" ++ ")")

/-- An edit of a list is written behind a point. -/
theorem text_of_list {edit : ArmorOperation} (list : edit.IsSlotEdit ∨ edit.IsKeywordEdit) :
    edit.text = "." ++ edit.editText := by
  have add : ".Add(" = "." ++ ("Add" ++ "(") := rfl
  have remove : ".Remove(" = "." ++ ("Remove" ++ "(") := rfl
  cases edit with
  | addSlots slots => simp only [text, editText, add, String.append_assoc]
  | removeSlots slots => simp only [text, editText, remove, String.append_assoc]
  | clearSlots => rfl
  | addKeywords references =>
    show ".Add(" ++ referencesText references ++ ")" = _
    simp only [editText, add, String.append_assoc]
  | removeKeywords references =>
    show ".Remove(" ++ referencesText references ++ ")" = _
    simp only [editText, remove, String.append_assoc]
  | clearKeywords => rfl
  | _ => exact list.elim False.elim False.elim

/-- Every edit starts with a blank or a point. -/
theorem breaks_text (edit : ArmorOperation) : breaks edit.text = true := by
  have blank : continuesWord ' ' = false := by decide
  have point : continuesWord '.' = false := by decide
  cases edit <;> simp [breaks, text, toString, blank, point]

/-- The edits of a field, or the semicolon behind them, break the word for the field. -/
theorem breaks_join (edits : List ArmorOperation) (rest : String) :
    breaks (String.join (edits.map text) ++ (";" ++ rest)) = true := by
  cases edits with
  | nil =>
    rw [List.map_nil, String.join_nil, String.empty_append]
    exact breaks_append (by decide) rest
  | cons edit others =>
    rw [List.map_cons, String.join_cons, String.append_assoc]
    exact breaks_append edit.breaks_text _

section Reads

variable {rest : String}

/-- The written slots of a set are read as arguments. -/
theorem reads_slots (slots : SlotSet) :
    (arguments slot).Reads (slots.text ", " ++ ")") slots.written rest := by
  rw [slots.text_eq]
  exact reads_arguments slots.written_ne_nil fun value member later broken =>
    reads_slot (SlotSet.isWritable_of_mem_written member) broken

/-- References are read as arguments. -/
theorem reads_references {references : List String} (some : references ≠ [])
    (valid : ∀ reference ∈ references, IsForm reference) :
    (arguments form).Reads (referencesText references ++ ")") references rest :=
  reads_arguments some fun reference member _ broken => reads_form (valid reference member) broken

/-- An edit is read by its name and what stands behind its parenthesis. -/
theorem reads_named {word text : String} {edit : ArmorOperation}
    {inside : String → Reader ArmorOperation} (run : isWord word = true)
    (reads : (inside word).Reads text edit rest) :
    (next >>= fun word => expect "(" >>= fun _ => inside word).Reads (word ++ ("(" ++ text)) edit
      rest := by
  refine (reads_next (stands_word run ?_)).bind ?_
  · rw [String.append_assoc]
    exact breaks_append (by decide) _
  · exact (reads_expect (stands_mark (by decide) _)).bind reads

/-- The written form of an edit of slots is read as the edit. -/
theorem reads_readSlotEdit {edit : ArmorOperation} (slotEdit : edit.IsSlotEdit) :
    readSlotEdit.Reads edit.editText edit rest := by
  cases edit with
  | addSlots slots =>
    refine reads_named (by decide) ?_
    rw [if_neg (by decide), if_pos rfl]
    refine (reads_slots slots).last ?_
    rw [slots.ofList_written]
    exact reads_pure _ rest
  | removeSlots slots =>
    refine reads_named (by decide) ?_
    rw [if_neg (by decide), if_neg (by decide), if_pos rfl]
    refine (reads_slots slots).last ?_
    rw [slots.ofList_written]
    exact reads_pure _ rest
  | clearSlots =>
    refine reads_named (by decide) ?_
    rw [if_pos rfl]
    exact (reads_expect (stands_mark (by decide) rest)).last (reads_pure _ rest)
  | _ => exact slotEdit.elim

/-- The written form of an edit of keywords is read as the edit. -/
theorem reads_readKeywordEdit {edit : ArmorOperation} (keywordEdit : edit.IsKeywordEdit) :
    readKeywordEdit.Reads edit.editText edit rest := by
  cases edit with
  | addKeywords references =>
    refine reads_named (by decide) ?_
    rw [if_neg (by decide), if_pos rfl]
    exact (reads_references keywordEdit.1 keywordEdit.2).last (reads_pure _ rest)
  | removeKeywords references =>
    refine reads_named (by decide) ?_
    rw [if_neg (by decide), if_neg (by decide), if_pos rfl]
    exact (reads_references keywordEdit.1 keywordEdit.2).last (reads_pure _ rest)
  | clearKeywords =>
    refine reads_named (by decide) ?_
    rw [if_pos rfl]
    exact (reads_expect (stands_mark (by decide) rest)).last (reads_pure _ rest)
  | _ => exact keywordEdit.elim

/-- Edits of a list are read behind a point each, up to the semicolon. -/
theorem reads_readEdits {field : ArmorField} {edit : Reader ArmorOperation}
    {edits : List ArmorOperation} (some : edits ≠ [])
    (points : ∀ operation ∈ edits, operation.text = "." ++ operation.editText)
    (each : ∀ operation ∈ edits, ∀ later, edit.Reads operation.editText operation later) :
    (readEdits field edit).Reads (String.join (edits.map text)) edits (";" ++ rest) := by
  have apart : Apart "." (";" ++ rest) :=
    apart_of_stands (stands_mark (by decide) rest) (by decide)
  have marks (later : String) : words ("." ++ later) = "." :: words later :=
    stands_mark (by decide) later
  rw [List.map_congr_left points]
  refine (reads_afterEach marks (by decide)
    (fun operation member later _ => each operation member later) apart
    (breaks_append (by decide) rest)).last ?_
  rw [if_neg (by simpa using some)]
  exact reads_pure edits _

/-- The slots that take the place of others are read up to the semicolon. -/
theorem reads_readSlots (slots : SlotSet) :
    readSlots.Reads (slots.text " | ") slots (";" ++ rest) := by
  have marks (later : String) : words (" | " ++ later) = "|" :: words later := by
    rw [show " | " = " " ++ ("|" ++ " ") from rfl, String.append_assoc, String.append_assoc,
      words_blank (by decide), stands_mark (by decide), words_blank (by decide)]
  have union : (pure (SlotSet.ofList slots.written) : Reader SlotSet).Reads "" slots
      (";" ++ rest) := by
    rw [slots.ofList_written]
    exact reads_pure slots _
  have apart : Apart "|" ("" ++ (";" ++ rest)) := by
    rw [String.empty_append]
    exact apart_of_stands (stands_mark (by decide) rest) (by decide)
  have ends : breaks ("" ++ (";" ++ rest)) = true := by
    rw [String.empty_append]
    exact breaks_append (by decide) rest
  have each (value : Nat) (member : value ∈ slots.written) (later : String)
      (broken : breaks later = true) : slot.Reads (Nat.repr value) value later :=
    reads_slot (SlotSet.isWritable_of_mem_written member) broken
  have whole : readSlots.Reads (" | ".intercalate (slots.written.map Nat.repr) ++ "") slots
      (";" ++ rest) :=
    reads_separated (fun values => pure (SlotSet.ofList values)) slots.written_ne_nil marks
      (by decide) each apart ends union
  rwa [String.append_empty, ← slots.text_eq] at whole

/-- A value is read behind an equals sign. -/
theorem reads_readSet {α : Type} {reader : Reader α} {set : α → ArmorOperation} {value : α}
    {text : String} (reads : reader.Reads text value rest) :
    (readSet reader set).Reads (" " ++ ("=" ++ (" " ++ text))) [set value] rest := by
  have blank : isBlankText " " = true := by decide
  refine .blank blank ((reads_expect (stands_mark (by decide) _)).bind (.blank blank ?_))
  exact reads.last (reads_pure _ rest)

/-- The edits of a field are read back up to the semicolon. -/
theorem reads_read {field : ArmorField} {edits : List ArmorOperation} (fits : Fits field edits)
    (finite : ∀ edit ∈ edits, edit.isFinite = true) :
    (read field).Reads (String.join (edits.map text)) edits (";" ++ rest) := by
  have blank : isBlankText " " = true := by decide
  have ends : breaks (";" ++ rest) = true := breaks_append (by decide) rest
  have point : Apart "." (";" ++ rest) :=
    apart_of_stands (stands_mark (by decide) rest) (by decide)
  have single (edit : ArmorOperation) : String.join ([edit].map text) = edit.text := by
    simp
  have given (value : String) {edit : ArmorOperation} (spelled : edit.text = " = " ++ value) :
      String.join ([edit].map text) = " " ++ ("=" ++ (" " ++ value)) := by
    rw [single, spelled, show " = " = " " ++ ("=" ++ " ") from rfl]
    simp only [String.append_assoc]
  cases fits with
  | setSlots slots =>
    rw [given (slots.text " | ") rfl]
    refine .blank blank ((reads_accept (stands_mark (by decide) _)).bind (.blank blank ?_))
    rw [if_pos rfl]
    exact (reads_readSlots slots).last (reads_pure _ _)
  | editSlots some each =>
    have apart : Apart "=" (String.join (edits.map text) ++ (";" ++ rest)) := by
      cases edits with
      | nil => exact absurd rfl some
      | cons edit others =>
        have spelled := text_of_list (.inl (each edit List.mem_cons_self))
        rw [List.map_cons, String.join_cons, spelled, String.append_assoc, String.append_assoc]
        exact apart_of_stands (stands_mark (by decide) _) (by decide)
    refine (reads_accept_of_apart (by decide) apart).ahead ?_
    rw [if_neg (by decide)]
    exact reads_readEdits some (fun edit member => text_of_list (.inl (each edit member)))
      fun edit member _ => reads_readSlotEdit (each edit member)
  | @setFullName name quotable =>
    have spelled : (setFullName name).text = " = " ++ inQuotes name :=
      String.toList_inj.1 (by simp [text, inQuotes, toString])
    rw [given _ spelled]
    exact reads_readSet (reads_string quotable)
  | setRating rating =>
    rw [given rating.text rfl]
    exact reads_readSet (reads_number (finite _ List.mem_cons_self) (endsRuns_of_breaks ends) point)
  | setWeight weight =>
    rw [given weight.text rfl]
    exact reads_readSet (reads_number (finite _ List.mem_cons_self) (endsRuns_of_breaks ends) point)
  | @setValue value fits =>
    rw [given value.repr rfl]
    exact reads_readSet (reads_integer fits ends)
  | editKeywords some each =>
    exact reads_readEdits some (fun edit member => text_of_list (.inr (each edit member)))
      fun edit member _ => reads_readKeywordEdit (each edit member)

end Reads

section Answers

/-- Every edit of slots that is read is one that can be written. -/
theorem answers_readSlotEdit : readSlotEdit.Answers IsSlotEdit := by
  refine .after fun word => .after fun _ => ?_
  split
  · exact .after fun _ => answers_pure trivial
  · split
    · exact .after fun _ => answers_pure trivial
    · split
      · exact .after fun _ => answers_pure trivial
      · exact answers_fail _

/-- Every edit of keywords that is read is one that can be written. -/
theorem answers_readKeywordEdit : readKeywordEdit.Answers IsKeywordEdit := by
  refine .after fun word => .after fun _ => ?_
  split
  · exact .after fun _ => answers_pure trivial
  · split
    · exact (answers_arguments answers_form).bind fun _ valid => answers_pure valid
    · split
      · exact (answers_arguments answers_form).bind fun _ valid => answers_pure valid
      · exact answers_fail _

/-- Edits of a list are at least one, and each is one of the list. -/
theorem answers_readEdits {field : ArmorField} {edit : Reader ArmorOperation}
    {places : Cursor → Prop} [Cursor.Inherited places] {good : ArmorOperation → Prop}
    (answers : edit.AnswersFrom places good) :
    (readEdits field edit).AnswersFrom places fun edits =>
      edits ≠ [] ∧ ∀ edit ∈ edits, good edit := by
  refine (answers_afterEach answers).bind fun edits each => ?_
  split
  · exact .after fun _ => answers_fail _
  · next some => exact answers_pure ⟨by simpa using some, each⟩

/-- A value that is set fits the field when each value that is read does. -/
theorem answers_readSet {α : Type} {reader : Reader α} {set : α → ArmorOperation}
    {good : α → Prop} {field : ArmorField} (answers : reader.Answers good)
    (fits : ∀ value, good value → Fits field [set value]) :
    (readSet reader set).Answers (Fits field) :=
  .after fun _ => answers.bind fun value holds => answers_pure (fits value holds)

/-- The edits of a field that are read fit it. -/
theorem answers_read (field : ArmorField) : (read field).Answers (Fits field) := by
  cases field with
  | slots =>
    refine .after fun found => ?_
    split
    · exact .after fun slots => answers_pure (.setSlots slots)
    · exact (answers_readEdits answers_readSlotEdit).mono fun _ found => .editSlots found.1 found.2
  | keywords =>
    exact (answers_readEdits answers_readKeywordEdit).mono
      fun _ found => .editKeywords found.1 found.2
  | fullName => exact answers_readSet answers_string fun _ quotable => .setFullName quotable
  | rating => exact answers_readSet (fun _ _ _ _ _ => trivial) fun rating _ => .setRating rating
  | weight => exact answers_readSet (fun _ _ _ _ _ => trivial) fun weight _ => .setWeight weight
  | value => exact answers_readSet answers_integer fun _ fits => .setValue fits

end Answers

end ArmorOperation

namespace ArmorPatch

/-- A patch whose filter has a form reference and whose edits fit its field. -/
structure IsValid (patch : ArmorPatch) : Prop where
  /-- The filter has a form reference. -/
  filter : IsForm patch.filter.reference
  /-- The edits are edits of the field. -/
  fits : ArmorOperation.Fits patch.field patch.operations

/-- Whether all numbers of a patch are finite. -/
def isFinite (patch : ArmorPatch) : Bool := patch.operations.all ArmorOperation.isFinite

/-- A patch as it is written behind the word for its filter. -/
def tailText (patch : ArmorPatch) : String :=
  "(" ++ (formText patch.filter.reference ++ (")" ++ ("." ++ (patch.field.word ++
    (String.join (patch.operations.map ArmorOperation.text) ++ ";")))))

/-- A patch is written as the word for its filter and what stands behind it. -/
theorem write_eq (level : Nat) (patch : ArmorPatch) :
    grammar.write level patch = indent level ++ (patch.filter.word ++ patch.tailText) := by
  obtain ⟨filter, field, operations⟩ := patch
  apply String.toList_inj.1
  cases filter with
  | form reference =>
    simp [grammar, write, ArmorFilter.word, ArmorFilter.reference, tailText, toString]
  | keyword reference =>
    simp [grammar, write, ArmorFilter.word, ArmorFilter.reference, tailText, toString]

/-- The word for a filter stands in front of the rest of its patch. -/
theorem stands_word_filter (patch : ArmorPatch) (rest : String) :
    Stands patch.filter.word (patch.tailText ++ rest) := by
  refine stands_word patch.filter.isWord_word ?_
  rw [tailText, String.append_assoc]
  exact breaks_append (by decide) _

/-- The written form of a filter is read as the filter. -/
theorem reads_readFilter {filter : ArmorFilter} (valid : IsForm filter.reference) {rest : String} :
    readFilter.Reads (filter.word ++ ("(" ++ (formText filter.reference ++ ")"))) filter rest := by
  have word : Stands filter.word (("(" ++ (formText filter.reference ++ ")")) ++ rest) := by
    refine stands_word filter.isWord_word ?_
    rw [String.append_assoc]
    exact breaks_append (by decide) _
  have inside (make : String → ArmorFilter) : (expect "(" >>= fun _ => form >>= fun reference =>
      expect ")" >>= fun _ => pure (make reference)).Reads
        ("(" ++ (formText filter.reference ++ ")")) (make filter.reference) rest := by
    refine (reads_expect (stands_mark (by decide) _)).bind ?_
    refine (reads_form valid (breaks_append (by decide) rest)).bind ?_
    exact (reads_expect (stands_mark (by decide) rest)).last (reads_pure _ rest)
  refine (reads_next word).bind ?_
  cases filter with
  | form reference => exact inside .form
  | keyword reference => exact inside .keyword

/-- The reference of every filter that is read is a written form reference. -/
theorem answers_readFilter : readFilter.Answers fun filter => IsForm filter.reference := by
  refine .after fun word => ?_
  cases named : filterOfWord? word with
  | none => exact answers_fail _
  | some make =>
    refine .after fun _ => answers_form.bind fun reference valid => .after fun _ => ?_
    refine answers_pure ?_
    unfold filterOfWord? at named
    split at named
    · obtain rfl := Option.some.inj named
      exact valid
    · split at named
      · obtain rfl := Option.some.inj named
        exact valid
      · cases named

/-- A valid patch with finite numbers is read back from its word on. -/
theorem reads_read {patch : ArmorPatch} (valid : patch.IsValid) (finite : patch.isFinite = true)
    (rest : String) : grammar.read.Reads (patch.filter.word ++ patch.tailText) patch rest := by
  have split : patch.filter.word ++ patch.tailText =
      (patch.filter.word ++ ("(" ++ (formText patch.filter.reference ++ ")"))) ++ ("." ++
        (patch.field.word ++ (String.join (patch.operations.map ArmorOperation.text) ++ ";"))) := by
    simp only [tailText, String.append_assoc]
  have word : Stands patch.field.word
      ((String.join (patch.operations.map ArmorOperation.text) ++ ";") ++ rest) := by
    refine stands_word patch.field.isWord_word ?_
    rw [String.append_assoc]
    exact ArmorOperation.breaks_join _ rest
  rw [split]
  refine (reads_readFilter valid.filter).bind ?_
  refine (reads_expect (stands_mark (by decide) _)).bind ((reads_next word).bind ?_)
  rw [ArmorField.ofWord?_word]
  refine (ArmorOperation.reads_read valid.fits (List.all_eq_true.1 finite)).bind ?_
  exact (reads_expect (stands_mark (by decide) rest)).last (reads_pure patch rest)

/-- A patch that is read from a text is valid. -/
theorem answers_read : grammar.read.Answers IsValid := by
  refine answers_readFilter.bind fun filter valid => .after fun _ => .after fun word => ?_
  cases ArmorField.ofWord? word with
  | none => exact answers_fail _
  | some field =>
    refine (ArmorOperation.answers_read field).bind fun operations fits => .after fun _ => ?_
    exact answers_pure ⟨valid, fits⟩

/-- The grammar of armor patches reads back what it writes for valid patches with finite
numbers. -/
theorem readsBack : grammar.ReadsBack fun patch => patch.IsValid ∧ patch.isFinite = true :=
  .of_words write_eq stands_word_filter (fun patch => patch.filter.word_apart)
    fun _ writable rest => reads_read writable.1 writable.2 rest

end ArmorPatch

/-- The text of a valid tree with finite numbers is read as that tree without a fault, and every
tree that is read from a text is valid, both whatever happens after faults. -/
theorem roundTrip_of_armor_trees :
    (∀ recovery statements, Statement.IsWritable ArmorPatch.IsValid statements →
      (∀ patch ∈ Statement.payloadsAll statements, patch.isFinite = true) →
        PatchFile.read .armor recovery (PatchFile.armor statements).text =
          (.armor statements, [])) ∧
    ∀ recovery source, ∃ statements faults,
      PatchFile.read .armor recovery source = (.armor statements, faults) ∧
        Statement.IsWritable ArmorPatch.IsValid statements := by
  constructor
  · intro recovery statements valid finite
    have writable : Statement.IsWritable
        (fun patch : ArmorPatch => patch.IsValid ∧ patch.isFinite = true) statements :=
      ⟨fun patch member => ⟨valid.payloads patch member, finite patch member⟩, valid.guards,
        valid.height⟩
    have reading := ArmorPatch.readsBack.ofText recovery statements writable
    simp only [PatchFile.read, PatchFile.text, reading]
  · intro recovery source
    exact ⟨_, _, rfl, Reading.isWritable_ofText ArmorPatch.answers_read recovery source⟩

end FormPatch
