import FormPatch.Proofs.Armor.RoundTrip
import FormPatch.Proofs.Keyword.RoundTrip
import FormPatch.Proofs.Statement.Language
import FormPatch.Proofs.Syntax.Spelling

/-!
# The languages of armor and keyword files

The phrases that are armor patches and those that are keyword patches, each with its semicolon.
Main statement: reading a file of either type without going on behind faults finds no fault exactly
where its words are derived over these phrases and chains lie no deeper in each other than they may,
and answers the derived tree.
-/

namespace FormPatch

open Syntax Syntax.Reader

/-- The argument of a filter of keywords. -/
inductive KeywordFilter.Argument : Phrases KeywordFilter
  /-- A form reference. -/
  | form {words : List String} {reference : String} (spelled : Phrases.Form words reference) :
    KeywordFilter.Argument words (.form reference)
  /-- An editor ID in quotes. -/
  | editorId (text : String) : KeywordFilter.Argument [inQuotes text] (.editorId text)

namespace KeywordPatch

/-- The words of a keyword patch, up to and with its semicolon. -/
inductive Spelled : Phrases KeywordPatch
  /-- A filter and a new editor ID. -/
  | patch {argument : List String} {filter : KeywordFilter} {editorId : String}
    (filtered : KeywordFilter.Argument argument filter) (named : isEditorId editorId = true) :
    Spelled (filter.word :: "(" ::
      (argument ++ [")", ".", "EditorID", "=", inQuotes editorId, ";"])) ⟨filter, editorId⟩

/-- The argument of the filter that a word stands for is recognized. -/
theorem recognizes_readFilter (word : String) :
    (readFilter word).Recognizes Anywhere fun words filter =>
      filter.word = word ∧ KeywordFilter.Argument words filter := by
  unfold readFilter
  split
  · next same =>
    refine (recognizes_form.map KeywordFilter.form fun _ _ _ => trivial).congr
      fun words filter => ?_
    constructor
    · rintro ⟨reference, rfl, spelled⟩
      exact ⟨same.symm, .form spelled⟩
    · rintro ⟨named, spelled⟩
      cases spelled with
      | form spelled => exact ⟨_, rfl, spelled⟩
      | editorId text =>
        have impossible : "FilterByEditorID" = "FilterByFormID" := named.trans same
        exact absurd impossible (by decide)
  · next other =>
    split
    · next same =>
      refine (recognizes_string.map KeywordFilter.editorId fun _ _ _ => trivial).congr
        fun words filter => ?_
      constructor
      · rintro ⟨text, rfl, rfl⟩
        exact ⟨same.symm, .editorId text⟩
      · rintro ⟨named, spelled⟩
        cases spelled with
        | form spelled =>
          have impossible : "FilterByFormID" = "FilterByEditorID" := named.trans same
          exact absurd impossible (by decide)
        | editorId text => exact ⟨text, rfl, rfl⟩
    · next other' =>
      refine (refuses_fail _).recognizes.congr fun words filter => ⟨False.elim, ?_⟩
      rintro ⟨named, spelled⟩
      cases spelled with
      | form spelled => exact other named.symm
      | editorId text => exact other' named.symm

/-- Behind a missing word no patch is read. -/
theorem refuses_readFilter_empty : (readFilter "").Refuses := by
  rw [readFilter, if_neg (by decide), if_neg (by decide)]
  exact refuses_fail _

/-- Keyword patches are recognized. -/
theorem recognizes_read : read.Recognizes Anywhere Spelled := by
  have tail (filter : KeywordFilter) : (string >>= fun editorId =>
      require (isEditorId editorId) (.editorId editorId) >>= fun _ => expect ";" >>= fun _ =>
        pure (⟨filter, editorId⟩ : KeywordPatch)).Recognizes Anywhere _ :=
    recognizes_string.append fun editorId =>
      ((recognizes_pure _).expect (by decide)).require _ _
  have behind (word : String) := (recognizes_readFilter word).append fun filter =>
    ((((tail filter).expect (by decide : "=" ≠ "")).expect (by decide : "EditorID" ≠ "")).expect
      (by decide : "." ≠ "")).expect (by decide : ")" ≠ "")
  have whole : read.Recognizes Anywhere _ :=
    recognizes_next (.after (fun _ => refuses_readFilter_empty.bind _) _)
      fun word => (behind word).expect (by decide)
  refine whole.congr fun words patch => ?_
  constructor
  · rintro ⟨_, _, rfl, _, rfl, filter, argument, _, rfl, ⟨rfl, filtered⟩, _, rfl, _, rfl, _, rfl, _,
      rfl, editorId, _, _, rfl, rfl, named, _, rfl, rfl, rfl⟩
    exact .patch filtered named
  · rintro @⟨argument, filter, editorId, filtered, named⟩
    exact ⟨_, _, rfl, _, rfl, filter, argument, _, rfl, ⟨rfl, filtered⟩, _, rfl, _, rfl, _, rfl, _,
      rfl, editorId, _, _, rfl, rfl, named, _, rfl, rfl, rfl⟩

end KeywordPatch

namespace ArmorOperation

/-- An edit of a list, behind its point: items are added or removed, or the list is cleared. -/
inductive ListEdit {β : Type} (items : Phrases β) (add remove : List β → ArmorOperation)
    (clear : ArmorOperation) : Phrases ArmorOperation
  /-- Items are added. -/
  | add {words : List String} {values : List β} (spelled : items.separated "," words values) :
    ListEdit items add remove clear ("Add" :: "(" :: (words ++ [")"])) (add values)
  /-- Items are removed. -/
  | remove {words : List String} {values : List β} (spelled : items.separated "," words values) :
    ListEdit items add remove clear ("Remove" :: "(" :: (words ++ [")"])) (remove values)
  /-- The list is cleared. -/
  | clear : ListEdit items add remove clear ["Clear", "(", ")"] clear

/-- A value that is given behind an equals sign. -/
def Given {β : Type} (values : Phrases β) (set : β → ArmorOperation) :
    Phrases (List ArmorOperation) :=
  fun words operations =>
    ∃ others value, words = "=" :: others ∧ operations = [set value] ∧ values others value

/-- Edits of a list, each behind a point, at least one. -/
def Edited (edit : Phrases ArmorOperation) : Phrases (List ArmorOperation) :=
  fun words operations => operations ≠ [] ∧ edit.EachBehind "." words operations

/-- The words of the edits of a field, behind the word for the field. -/
def Spelled : ArmorField → Phrases (List ArmorOperation)
  | .slots => fun words operations =>
    Given (Phrases.slot.separated "|") (fun slots => setSlots (.ofList slots)) words operations ∨
      Edited (ListEdit Phrases.slot (fun slots => addSlots (.ofList slots))
        (fun slots => removeSlots (.ofList slots)) clearSlots) words operations
  | .fullName => Given Phrases.string setFullName
  | .rating => Given Phrases.number setRating
  | .weight => Given Phrases.number setWeight
  | .value => Given Phrases.integer setValue
  | .keywords => Edited (ListEdit Phrases.Form addKeywords removeKeywords clearKeywords)

section Lists

variable {β : Type} {item : Reader β} {phrases : Phrases β}

/-- The arguments of an edit of a list, given its name. -/
def readArguments (item : Reader β) (add remove : List β → ArmorOperation) (clear : ArmorOperation)
    (word : String) : Reader ArmorOperation :=
  if word = "Clear" then do
    expect ")"
    pure clear
  else if word = "Add" then do
    let items ← arguments item
    pure (add items)
  else if word = "Remove" then do
    let items ← arguments item
    pure (remove items)
  else fail (.operation word)

/-- One edit of a list of items, from its name to its closing parenthesis. -/
def readListEdit (item : Reader β) (add remove : List β → ArmorOperation)
    (clear : ArmorOperation) : Reader ArmorOperation := do
  let word ← next
  expect "("
  readArguments item add remove clear word

/-- An edit of slots is an edit of a list, with slots for items. -/
theorem readSlotEdit_eq : readSlotEdit = readListEdit slot (fun slots => addSlots (.ofList slots))
    (fun slots => removeSlots (.ofList slots)) clearSlots := rfl

/-- An edit of keywords is an edit of a list, with form references for items. -/
theorem readKeywordEdit_eq :
    readKeywordEdit = readListEdit form addKeywords removeKeywords clearKeywords := rfl

/-- The name of an edit decides what stands behind it. -/
theorem listEdit_iff {add remove : List β → ArmorOperation} {clear : ArmorOperation} {word : String}
    {words : List String} {edit : ArmorOperation} :
    ListEdit phrases add remove clear (word :: "(" :: words) edit ↔
      (word = "Clear" ∧ words = [")"] ∧ edit = clear) ∨
      (word = "Add" ∧ ∃ values, edit = add values ∧
        ∃ inside, words = inside ++ [")"] ∧ phrases.separated "," inside values) ∨
      (word = "Remove" ∧ ∃ values, edit = remove values ∧
        ∃ inside, words = inside ++ [")"] ∧ phrases.separated "," inside values) := by
  constructor
  · generalize split : word :: "(" :: words = whole
    rintro (spelled | spelled | _)
    · obtain ⟨rfl, rfl⟩ : word = "Add" ∧ words = _ := by simpa using split
      exact .inr (.inl ⟨rfl, _, rfl, _, rfl, spelled⟩)
    · obtain ⟨rfl, rfl⟩ : word = "Remove" ∧ words = _ := by simpa using split
      exact .inr (.inr ⟨rfl, _, rfl, _, rfl, spelled⟩)
    · obtain ⟨rfl, rfl⟩ : word = "Clear" ∧ words = _ := by simpa using split
      exact .inl ⟨rfl, rfl, rfl⟩
  · rintro (⟨rfl, rfl, rfl⟩ | ⟨rfl, values, rfl, inside, rfl, spelled⟩ |
      ⟨rfl, values, rfl, inside, rfl, spelled⟩)
    · exact .clear
    · exact .add spelled
    · exact .remove spelled

/-- The arguments of an edit are recognized behind its name. -/
theorem recognizes_readArguments (items : item.Recognizes Anywhere phrases)
    (add remove : List β → ArmorOperation) (clear : ArmorOperation) (word : String) :
    (readArguments item add remove clear word).Recognizes Anywhere fun words edit =>
      ListEdit phrases add remove clear (word :: "(" :: words) edit := by
  have inside := recognizes_arguments items
  simp only [listEdit_iff]
  unfold readArguments
  split
  · next cleared =>
    refine ((recognizes_pure clear).expect (by decide)).congr fun words edit => ?_
    simp only [cleared, Phrases.behind, String.reduceEq, false_and, or_false, true_and]
    constructor
    · rintro ⟨_, rfl, rfl, rfl⟩
      exact ⟨rfl, rfl⟩
    · rintro ⟨rfl, rfl⟩
      exact ⟨[], rfl, rfl, rfl⟩
  · next other =>
    split
    · next added =>
      refine (inside.map add fun _ _ _ => trivial).congr fun words edit => ?_
      simp [added]
    · next other' =>
      split
      · next removed =>
        refine (inside.map remove fun _ _ _ => trivial).congr fun words edit => ?_
        simp [removed]
      · next unknown =>
        refine (refuses_fail _).recognizes.congr fun words edit => ?_
        simp [other, other', unknown]

/-- The reader of an edit of a list recognizes such edits, given that of an item. -/
theorem recognizes_readListEdit (items : item.Recognizes Anywhere phrases)
    (add remove : List β → ArmorOperation) (clear : ArmorOperation) :
    (readListEdit item add remove clear).Recognizes Anywhere
      (ListEdit phrases add remove clear) := by
  have missing : (readArguments item add remove clear "").Refuses := refuses_fail _
  refine (recognizes_next (.after (fun _ => missing) _) fun word =>
    (recognizes_readArguments items add remove clear word).expect (by decide)).congr
      fun words edit => ?_
  constructor
  · rintro ⟨word, _, rfl, others, rfl, spelled⟩
    exact spelled
  · rintro (spelled | spelled | _)
    · exact ⟨_, _, rfl, _, rfl, .add spelled⟩
    · exact ⟨_, _, rfl, _, rfl, .remove spelled⟩
    · exact ⟨_, _, rfl, _, rfl, .clear⟩

/-- Edits of a list are recognized where no point is left. -/
theorem recognizes_readEdits (field : ArmorField) {edit : Reader ArmorOperation}
    {edits : Phrases ArmorOperation} (recognizes : edit.Recognizes Anywhere edits) :
    (readEdits field edit).Recognizes (NotAt ".") (Edited edits) := by
  have checked (found : List ArmorOperation) : (if found.isEmpty then peek >>= fun word =>
      fail (.noOperation field.word word) else pure found : Reader _).Recognizes (NotAt ".")
        fun words value => found ≠ [] ∧ words = [] ∧ value = found := by
    split
    · next empty =>
      refine (Refuses.after (fun _ => refuses_fail _) _).recognizes.congr fun words value => ?_
      simp [List.isEmpty_iff.1 empty]
    · next some =>
      refine (recognizes_pure found).congr fun words value => ?_
      rw [List.isEmpty_iff] at some
      exact (and_iff_right some).symm
  refine ((recognizes_afterEach recognizes).bind checked ?_).congr fun words operations => ?_
  · rintro found _ value left ⟨_, rfl, rfl⟩ other
    exact other
  · constructor
    · rintro ⟨found, front, _, rfl, spelled, some, rfl, rfl⟩
      exact ⟨some, by rwa [List.append_nil]⟩
    · rintro ⟨some, spelled⟩
      exact ⟨operations, words, [], (List.append_nil words).symm, spelled, some, rfl, rfl⟩

end Lists

/-- Edits of a list start with a point. -/
theorem Edited.head? {edit : Phrases ArmorOperation} {words : List String}
    {operations : List ArmorOperation} (edited : Edited edit words operations) :
    words.head? = some "." := by
  obtain ⟨some, spelled⟩ := edited
  cases spelled with
  | nil => exact absurd rfl some
  | cons => rfl

/-- Slots between bars are recognized where no bar is left. -/
theorem recognizes_readSlots : readSlots.Recognizes (NotAt "|") fun words set =>
    ∃ slots, set = .ofList slots ∧ Phrases.slot.separated "|" words slots := by
  have whole : readSlots.Recognizes (NotAt "|") _ :=
    recognizes_separated recognizes_slot (fun slots => recognizes_pure (SlotSet.ofList slots)) (by
      rintro slots _ set left ⟨rfl, rfl⟩ other
      exact other)
  exact whole.congr fun _ _ => Phrases.bind_empty_iff

/-- What may be left behind the edits of a field: a semicolon. -/
def Ended {β : Type} (_ : β) (left : List String) : Prop := left.head? = some ";"

/-- A semicolon is no other mark. -/
theorem Ended.notAt {β : Type} {value : β} {left : List String} (ends : Ended value left)
    {mark : String} (other : ";" ≠ mark) : NotAt mark value left := by
  rw [NotAt, ends]
  simpa using other

/-- A given value is recognized in front of a semicolon. -/
theorem recognizes_readSet {β : Type} {value : Reader β} {values : Phrases β}
    (recognizes : value.Recognizes (NotAt ".") values) (set : β → ArmorOperation) :
    (readSet value set).Recognizes Ended (Given values set) := by
  have found : (value >>= fun found => pure [set found]).Recognizes Ended _ :=
    recognizes.map (fun found => [set found]) fun _ _ ends => ends.notAt (by decide)
  refine (found.expect (by decide)).congr fun words operations => ?_
  constructor
  · rintro ⟨others, rfl, value, rfl, spelled⟩
    exact ⟨others, value, rfl, rfl, spelled⟩
  · rintro ⟨others, value, rfl, rfl, spelled⟩
    exact ⟨others, rfl, value, rfl, spelled⟩

/-- The edits of a field are recognized in front of a semicolon. -/
theorem recognizes_read (field : ArmorField) : (read field).Recognizes Ended (Spelled field) := by
  cases field with
  | slots =>
    have given : (readSlots >>= fun slots => pure [setSlots slots]).Recognizes Ended _ :=
      recognizes_readSlots.map (fun slots => [setSlots slots])
        fun _ _ ends => ends.notAt (by decide)
    have edit := recognizes_readListEdit recognizes_slot (fun slots => addSlots (.ofList slots))
      (fun slots => removeSlots (.ofList slots)) clearSlots
    rw [← readSlotEdit_eq] at edit
    have edits : (readEdits .slots readSlotEdit).Recognizes Ended _ :=
      (recognizes_readEdits .slots edit).narrow fun _ _ ends => ends.notAt (by decide)
    refine (given.choice (by decide) edits ?_).congr fun words operations => ?_
    · intro front operations left edited _
      simp [NotAt, List.head?_append, edited.head?]
    · constructor
      · rintro (⟨others, rfl, _, rfl, slots, rfl, spelled⟩ | edited)
        · exact .inl ⟨others, slots, rfl, rfl, spelled⟩
        · exact .inr edited
      · rintro (⟨others, slots, rfl, rfl, spelled⟩ | edited)
        · exact .inl ⟨others, rfl, _, rfl, slots, rfl, spelled⟩
        · exact .inr edited
  | keywords =>
    have edit := recognizes_readListEdit recognizes_form addKeywords removeKeywords clearKeywords
    rw [← readKeywordEdit_eq] at edit
    exact (recognizes_readEdits .keywords edit).narrow fun _ _ ends => ends.notAt (by decide)
  | fullName => exact recognizes_readSet (recognizes_string.narrow fun _ _ _ => trivial) setFullName
  | rating => exact recognizes_readSet recognizes_number setRating
  | weight => exact recognizes_readSet recognizes_number setWeight
  | value => exact recognizes_readSet (recognizes_integer.narrow fun _ _ _ => trivial) setValue

end ArmorOperation

namespace ArmorPatch

/-- The words of an armor patch, up to and with its semicolon. -/
inductive Spelled : Phrases ArmorPatch
  /-- A filter, a field and the edits of the field. -/
  | patch {argument edits : List String} {filter : ArmorFilter} {field : ArmorField}
    {operations : List ArmorOperation} (filtered : Phrases.Form argument filter.reference)
    (edited : ArmorOperation.Spelled field edits operations) :
    Spelled (filter.word :: "(" ::
      (argument ++ ")" :: "." :: field.word :: (edits ++ [";"]))) ⟨filter, field, operations⟩

/-- The word for a filter stands for it. -/
theorem filterOfWord?_eq_some {word : String} {make : String → ArmorFilter} :
    filterOfWord? word = some make ↔
      (word = "FilterByFormID" ∧ make = .form) ∨ (word = "FilterByKeyword" ∧ make = .keyword) := by
  unfold filterOfWord?
  split
  · next form => simp [form, eq_comm]
  · next other =>
    split
    · next keyword => simp [keyword, eq_comm]
    · next other' => simp [other, other']

/-- What stands behind the word for a filter is recognized. -/
theorem recognizes_argument (make : String → ArmorFilter) :
    (expect "(" >>= fun _ => form >>= fun reference => expect ")" >>= fun _ =>
      pure (make reference)).Recognizes Anywhere fun words filter =>
        ∃ argument reference, words = "(" :: (argument ++ [")"]) ∧
          Phrases.Form argument reference ∧ filter = make reference := by
  have closed (reference : String) : (expect ")" >>= fun _ =>
      pure (make reference)).Recognizes Anywhere _ := (recognizes_pure _).expect (by decide)
  refine ((recognizes_form.append closed).expect (by decide)).congr fun words filter => ?_
  constructor
  · rintro ⟨_, rfl, reference, argument, _, rfl, spelled, _, rfl, rfl, rfl⟩
    exact ⟨argument, reference, rfl, spelled, rfl⟩
  · rintro ⟨argument, reference, rfl, spelled, rfl⟩
    exact ⟨_, rfl, reference, argument, _, rfl, spelled, _, rfl, rfl, rfl⟩

/-- A filter: its word and a form reference in parentheses. -/
def Filtered : Phrases ArmorFilter := fun words filter =>
  ∃ argument, words = filter.word :: "(" :: (argument ++ [")"]) ∧
    Phrases.Form argument filter.reference

/-- The reader of a filter recognizes filters. -/
theorem recognizes_readFilter : readFilter.Recognizes Anywhere Filtered := by
  have whole : readFilter.Recognizes Anywhere fun words filter =>
      ∃ word behind, words = word :: behind ∧ filter.word = word ∧
        ∃ argument, behind = "(" :: (argument ++ [")"]) ∧
          Phrases.Form argument filter.reference := by
    refine recognizes_next (refuses_fail _) fun word => ?_
    cases named : filterOfWord? word with
    | none =>
      refine (refuses_fail _).recognizes.congr fun words filter => ⟨False.elim, ?_⟩
      rintro ⟨rfl, _⟩
      cases filter <;> cases named
    | some make =>
      refine (recognizes_argument make).congr fun words filter => ?_
      rcases filterOfWord?_eq_some.1 named with ⟨rfl, rfl⟩ | ⟨rfl, rfl⟩ <;>
        cases filter <;> simp [ArmorFilter.word, ArmorFilter.reference]
  refine whole.congr fun words filter => ?_
  constructor
  · rintro ⟨_, _, rfl, rfl, argument, rfl, spelled⟩
    exact ⟨argument, rfl, spelled⟩
  · rintro ⟨argument, rfl, spelled⟩
    exact ⟨_, _, rfl, rfl, argument, rfl, spelled⟩

/-- The edits of a field are recognized up to and with their semicolon. -/
theorem recognizes_operations (filter : ArmorFilter) (field : ArmorField) :
    (ArmorOperation.read field >>= fun operations => expect ";" >>= fun _ =>
      pure ⟨filter, field, operations⟩ : Reader ArmorPatch).Recognizes Anywhere fun words patch =>
        patch.filter = filter ∧ patch.field = field ∧ ∃ edits, words = edits ++ [";"] ∧
          ArmorOperation.Spelled patch.field edits patch.operations := by
  have ended (operations : List ArmorOperation) : (expect ";" >>= fun _ =>
      pure ⟨filter, field, operations⟩ : Reader ArmorPatch).Recognizes Anywhere _ :=
    (recognizes_pure _).expect (by decide)
  refine ((ArmorOperation.recognizes_read field).bind ended ?_).congr fun words patch => ?_
  · rintro operations _ patch left ⟨_, rfl, _⟩ _
    rfl
  · constructor
    · rintro ⟨operations, edits, _, rfl, edited, _, rfl, rfl, rfl⟩
      exact ⟨rfl, rfl, edits, rfl, edited⟩
    · rintro ⟨rfl, rfl, edits, rfl, edited⟩
      exact ⟨patch.operations, edits, _, rfl, edited, _, rfl, rfl, rfl⟩

/-- Armor patches are recognized. -/
theorem recognizes_read : read.Recognizes Anywhere Spelled := by
  have whole : read.Recognizes Anywhere (Filtered.bind fun filter => Phrases.behind "."
      fun words patch => ∃ word behind, words = word :: behind ∧ patch.filter = filter ∧
        patch.field.word = word ∧ ∃ edits, behind = edits ++ [";"] ∧
          ArmorOperation.Spelled patch.field edits patch.operations) := by
    refine recognizes_readFilter.append fun filter => Recognizes.expect (by decide) ?_
    refine recognizes_next (refuses_fail _) fun word => ?_
    cases named : ArmorField.ofWord? word with
    | none =>
      refine (refuses_fail _).recognizes.congr fun words patch => ⟨False.elim, ?_⟩
      rintro ⟨_, rfl, _⟩
      rw [ArmorField.ofWord?_word] at named
      cases named
    | some field =>
      refine (recognizes_operations filter field).congr fun words patch => ?_
      have same : patch.field = field ↔ patch.field.word = word := by
        constructor
        · rintro rfl
          simpa using List.find?_some named
        · rintro rfl
          rw [ArmorField.ofWord?_word] at named
          exact Option.some.inj named
      rw [same]
  refine whole.congr fun words patch => ?_
  constructor
  · rintro ⟨_, _, _, rfl, ⟨argument, rfl, filtered⟩, _, rfl, _, _, rfl, rfl, rfl, edits, rfl,
      edited⟩
    have spelled := Spelled.patch filtered edited
    simpa using spelled
  · rintro @⟨argument, edits, filter, field, operations, filtered, edited⟩
    refine ⟨filter, filter.word :: "(" :: (argument ++ [")"]), _, ?_, ⟨argument, rfl, filtered⟩, _,
      rfl, field.word, _, rfl, rfl, rfl, edits, rfl, edited⟩
    simp

end ArmorPatch

/-- Over the documented forms of their expressions, reading accepts exactly what is derived. -/
theorem language_of_files :
    ArmorPatch.grammar.Accepts ArmorPatch.Spelled ∧
      KeywordPatch.grammar.Accepts KeywordPatch.Spelled := by
  constructor
  · have apart : ArmorPatch.Spelled.StartApart := by
      rintro _ _ @⟨_, _, filter, _, _, _, _⟩
      exact ⟨_, _, rfl, filter.word_apart⟩
    exact (Grammar.Recognizes.mk ArmorPatch.recognizes_read apart).accepts
  · have apart : KeywordPatch.Spelled.StartApart := by
      rintro _ _ @⟨_, filter, _, _, _⟩
      exact ⟨_, _, rfl, filter.word_apart⟩
    exact (Grammar.Recognizes.mk KeywordPatch.recognizes_read apart).accepts

end FormPatch
