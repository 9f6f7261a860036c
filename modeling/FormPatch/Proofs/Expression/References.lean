import FormPatch.PatchFile
import FormPatch.Proofs.Armor.RoundTrip
import FormPatch.Proofs.Keyword.RoundTrip
import FormPatch.Proofs.Syntax.Spelling

/-!
# References that files hold

Every form reference of a tree, in a filter, among the arguments of an edit or in a guard, was read
by one reader from three words of the text. Main statement: such a reference stands for the plugin
between its quotes and the number of its digits when the number fits 32 bits, and for no form at all
when it does not. The reader looks at the digits only, however many there are.

The proof follows a property of references from that one reader through the readers of expressions,
guards and trees. The property says where in the tokens of the text the reference was read.
-/

namespace FormPatch

open Syntax

/-- The number that a written hexadecimal number denotes. -/
def Text.hexValue (word : String) : Nat := valueOf 16 (dropHexMark word.toList)

namespace FormReference

/-- What a reference stands for that was written as the name of a plugin in quotes, a bar and a
word. -/
structure IsWrittenAs (reference plugin word : String) : Prop where
  /-- The plugin has a name. -/
  named : plugin ≠ ""
  /-- The word is a hexadecimal number. -/
  hexadecimal : Text.isHexNumber word = true
  /-- The reference keeps the name and the digits. -/
  joined : reference = plugin ++ ("|" ++ Text.stripHexMark word)
  /-- It stands for the plugin and the number, if the number fits. -/
  parsed : FormReference.parse reference =
    if Text.hexValue word < UInt32.size then .ok ⟨plugin, UInt32.ofNat (Text.hexValue word)⟩
    else .error (.unknownForm s!"malformed form reference: {reference}")

/-- A name and a hexadecimal number make a reference. -/
theorem isWrittenAs {plugin word : String} (named : plugin ≠ "")
    (hexadecimal : Text.isHexNumber word = true) :
    IsWrittenAs (plugin ++ ("|" ++ Text.stripHexMark word)) plugin word := by
  refine ⟨named, hexadecimal, rfl, ?_⟩
  have digits : (Text.stripHexMark word).toList = Text.dropHexMark word.toList := by
    rw [Text.stripHexMark, String.toList_ofList]
  have run : Text.isHexRun (Text.stripHexMark word).toList = true := by rwa [digits]
  have bare : Text.dropHexMark (Text.stripHexMark word).toList = Text.dropHexMark word.toList := by
    rw [Text.dropHexMark_of_isHexRun run, digits]
  have number : Text.isHexNumber (Text.stripHexMark word) = true := by
    rwa [Text.isHexNumber, bare]
  have split : splitLastBar (plugin ++ ("|" ++ Text.stripHexMark word)) =
      some (plugin, Text.stripHexMark word) :=
    splitLastBar_append (Text.not_mem_of_isHexRun run (by decide))
  by_cases fits : Text.hexValue word < UInt32.size
  · have found : parse? (plugin ++ ("|" ++ Text.stripHexMark word)) =
        some ⟨plugin, UInt32.ofNat (Text.hexValue word)⟩ := by
      rw [Text.hexValue] at fits
      simp [parse?, split, bare, number, named, fits, Text.hexValue]
    rw [parse, found, if_pos fits]
  · have found : parse? (plugin ++ ("|" ++ Text.stripHexMark word)) = none := by
      rw [Text.hexValue] at fits
      simp [parse?, split, bare, fits]
    rw [parse, found, if_neg fits]

end FormReference

/-- A form reference that is read stands for what its three words say. -/
theorem Syntax.Reader.form_eq_read {cursor after : Cursor} {reference : String}
    (ran : form.run cursor = .read reference after) :
    ∃ plugin word, cursor.words = inQuotes plugin :: "|" :: word :: after.words ∧
      FormReference.IsWrittenAs reference plugin word := by
  obtain ⟨front, words, spelled⟩ :=
    (recognizes_form cursor reference after.words trivial).1 ⟨after, ran, rfl⟩
  cases spelled with
  | @mk plugin mark number named marked run =>
    obtain ⟨hexadecimal, same⟩ := Text.isHexNumber_iff.2 ⟨mark, marked, rfl, run⟩
    have written := FormReference.isWrittenAs named hexadecimal
    rw [same] at written
    exact ⟨plugin, mark ++ number, words, written⟩

/-! ## The references of a tree -/

/-- The reference that a call asks for. -/
def Call.references (asked : Call) : List String :=
  match asked.question with
  | .isPluginExists => []
  | .isFormExists => [asked.argument]

/-- The reference that a token of a guard asks for. -/
def GuardToken.references : GuardToken → List String
  | call asked => asked.references
  | _ => []

/-- The references that a guard asks for, in order. -/
def Guard.references (guard : Guard) : List String := guard.flatMap GuardToken.references

/-- The references of an armor patch, the one of its filter first. -/
def ArmorPatch.references (patch : ArmorPatch) : List String :=
  patch.filter.reference :: patch.operations.flatMap ArmorOperation.references

/-- The reference in a filter, if it is by reference. -/
def KeywordFilter.references : KeywordFilter → List String
  | form reference => [reference]
  | editorId _ => []

/-- The references of a keyword patch. -/
def KeywordPatch.references (patch : KeywordPatch) : List String := patch.filter.references

/-- The references in the guards and in the expressions of statements. -/
def Statement.references {α : Type} (own : α → List String) (statements : List (Statement α)) :
    List String :=
  (guardsAll statements).flatMap Guard.references ++ (payloadsAll statements).flatMap own

/-- The references of a file. -/
def PatchFile.references : PatchFile → List String
  | armor statements => Statement.references ArmorPatch.references statements
  | keyword statements => Statement.references KeywordPatch.references statements

/-! ## Where they are read -/

section Readers

variable {places : Cursor → Prop} [Cursor.Inherited places] {good : String → Prop}

open Syntax.Reader

namespace Guard

/-- The references of joined guards are those of the one and the other. -/
theorem references_append (front behind : Guard) :
    references (front ++ behind) = front.references ++ behind.references :=
  List.flatMap_append

/-- The references in a call that is read are good when each form that is read is. -/
theorem answers_references_readCall (forms : form.AnswersFrom places good) (question : Question) :
    (readCall question).AnswersFrom places fun asked =>
      ∀ reference ∈ asked.references, good reference := by
  refine .after fun _ => ?_
  cases question with
  | isPluginExists => exact .after fun _ => .after fun _ => answers_pure (by simp [Call.references])
  | isFormExists =>
    refine forms.bind fun reference held => .after fun _ => answers_pure ?_
    simpa [Call.references] using held

/-- An operator asks for nothing. -/
theorem answers_references_readBinary (mark : String) (operator : Operator)
    (before : Option GuardToken) :
    (readBinary mark operator before).AnswersFrom places fun tokens =>
      ∀ reference ∈ tokens.references, good reference :=
  .after fun _ => .after fun _ => .after fun _ => .after fun _ =>
    answers_pure (by simp [references, GuardToken.references])

/-- The references in an element are good when each form that is read is and those of a group are.
-/
theorem answers_references_readElement {group : Reader Guard} (forms : form.AnswersFrom places good)
    (nested : group.AnswersFrom places fun inside => ∀ reference ∈ inside.references, good reference)
    (before : Option GuardToken) (word : String) :
    (readElement group before word).AnswersFrom places fun tokens =>
      ∀ reference ∈ tokens.references, good reference := by
  unfold readElement
  split
  · refine .after fun _ => .after fun _ => nested.bind fun inside held => .after fun _ => ?_
    refine answers_pure ?_
    simpa [references, GuardToken.references] using held
  · split
    · exact answers_references_readBinary _ _ _
    · split
      · exact answers_references_readBinary _ _ _
      · split
        · exact .after fun _ => .after fun _ => .after fun _ =>
            answers_pure (by simp [references, GuardToken.references])
        · split
          · exact answers_fail _
          · refine .after fun _ => .after fun _ =>
              (answers_references_readCall forms _).bind fun asked held => answers_pure ?_
            simpa [references, GuardToken.references] using held

/-- The references of a group are those of its elements. -/
theorem answers_references_runGroup {group : Reader Guard} (forms : form.AnswersFrom places good)
    (nested : group.AnswersFrom places fun inside => ∀ reference ∈ inside.references, good reference)
    (before : Option GuardToken) (cursor : Cursor) (held : places cursor) (tokens : Guard)
    (after : Cursor) (ran : runGroup group before cursor = .read tokens after) :
    ∀ reference ∈ tokens.references, good reference := by
  have looked : places cursor.look := Cursor.Inherited.look held
  fun_induction runGroup group before cursor generalizing tokens after with
  | case1 before cursor empty => simp at ran
  | case2 before cursor more closes =>
    obtain rfl : tokens = [] := answers_readEnd cursor.look tokens after looked ran
    simp [references]
  | case3 before cursor more inside error later element => simp at ran
  | case4 before cursor more inside element later read _ ih =>
    have first := answers_references_readElement forms nested before _ _ _ _ looked read
    have there := inherited_after looked read
    cases inner : runGroup group element.getLast? later with
    | failed error stopped => simp [inner, Outcome.map] at ran
    | read others stopped =>
      rw [inner, Outcome.map, Outcome.read.injEq] at ran
      obtain ⟨rfl, rfl⟩ := ran
      rw [references_append, List.forall_mem_append]
      exact ⟨first, ih there others stopped inner (Cursor.Inherited.look there)⟩

/-- The references in a group are good, however deep it may nest, when each form that is read is. -/
theorem answers_references_readGroup (forms : form.AnswersFrom places good) (room : Nat) :
    (readGroup room).AnswersFrom places fun guard =>
      ∀ reference ∈ guard.references, good reference := by
  induction room with
  | zero =>
    intro cursor guard after held ran
    exact answers_references_runGroup forms (answers_fail _) none cursor held guard after ran
  | succ room ih =>
    intro cursor guard after held ran
    exact answers_references_runGroup forms ih none cursor held guard after ran

end Guard

namespace ArmorOperation

/-- The references in an edit of keywords are good when each form that is read is. -/
theorem answers_references_readKeywordEdit (forms : form.AnswersFrom places good) :
    readKeywordEdit.AnswersFrom places fun edit =>
      ∀ reference ∈ edit.references, good reference := by
  refine .after fun word => .after fun _ => ?_
  split
  · exact .after fun _ => answers_pure (by simp [references])
  · split
    · exact (answers_arguments forms).bind fun _ held => answers_pure held.2
    · split
      · exact (answers_arguments forms).bind fun _ held => answers_pure held.2
      · exact answers_fail _

/-- An edit of a list of slots holds no reference. -/
theorem answers_references_readSlotEdit :
    readSlotEdit.AnswersFrom places fun edit => ∀ reference ∈ edit.references, good reference := by
  refine .after fun word => .after fun _ => ?_
  split
  · exact .after fun _ => answers_pure (by simp [references])
  · split
    · exact .after fun _ => answers_pure (by simp [references])
    · split
      · exact .after fun _ => answers_pure (by simp [references])
      · exact answers_fail _

/-- An edit that sets a value holds no reference. -/
theorem answers_references_readSet {α : Type} (reader : Reader α) {set : α → ArmorOperation}
    (none : ∀ value, (set value).references = []) :
    (readSet reader set).AnswersFrom places fun edits =>
      ∀ edit ∈ edits, ∀ reference ∈ edit.references, good reference :=
  .after fun _ => .after fun value => answers_pure (by simp [none])

/-- The references in the edits of a field are good when each form that is read is. -/
theorem answers_references_read (forms : form.AnswersFrom places good) (field : ArmorField) :
    (read field).AnswersFrom places fun edits =>
      ∀ edit ∈ edits, ∀ reference ∈ edit.references, good reference := by
  cases field with
  | slots =>
    refine .after fun found => ?_
    split
    · exact .after fun slots => answers_pure (by simp [references])
    · exact (answers_readEdits answers_references_readSlotEdit).mono fun _ found => found.2
  | keywords =>
    exact (answers_readEdits (answers_references_readKeywordEdit forms)).mono
      fun _ found => found.2
  | fullName => exact answers_references_readSet _ fun _ => rfl
  | rating => exact answers_references_readSet _ fun _ => rfl
  | weight => exact answers_references_readSet _ fun _ => rfl
  | value => exact answers_references_readSet _ fun _ => rfl

end ArmorOperation

namespace ArmorPatch

/-- The reference of a filter is good when each form that is read is. -/
theorem answers_reference_readFilter (forms : form.AnswersFrom places good) :
    readFilter.AnswersFrom places fun filter => good filter.reference := by
  refine .after fun word => ?_
  cases named : filterOfWord? word with
  | none => exact answers_fail _
  | some make =>
    refine .after fun _ => forms.bind fun reference held => .after fun _ => answers_pure ?_
    unfold filterOfWord? at named
    split at named
    · obtain rfl := Option.some.inj named
      exact held
    · split at named
      · obtain rfl := Option.some.inj named
        exact held
      · cases named

/-- The references of an armor patch are good when each form that is read is. -/
theorem answers_references_read (forms : form.AnswersFrom places good) :
    grammar.read.AnswersFrom places fun patch =>
      ∀ reference ∈ patch.references, good reference := by
  refine (answers_reference_readFilter forms).bind fun filter first => .after fun _ =>
    .after fun word => ?_
  cases ArmorField.ofWord? word with
  | none => exact answers_fail _
  | some field =>
    refine (ArmorOperation.answers_references_read forms field).bind fun operations each => ?_
    refine .after fun _ => answers_pure ?_
    simpa [references, first] using fun reference edit member => each edit member reference

end ArmorPatch

/-- The references of a keyword patch are good when each form that is read is. -/
theorem KeywordPatch.answers_references_read (forms : form.AnswersFrom places good) :
    grammar.read.AnswersFrom places fun patch =>
      ∀ reference ∈ patch.references, good reference := by
  have filters (word : String) : (readFilter word).AnswersFrom places fun filter =>
      ∀ reference ∈ filter.references, good reference := by
    unfold readFilter
    split
    · refine forms.bind fun reference held => answers_pure ?_
      simpa [KeywordFilter.references] using held
    · split
      · exact .after fun _ => answers_pure (by simp [KeywordFilter.references])
      · exact answers_fail _
  refine .after fun word => .after fun _ => (filters word).bind fun filter held => ?_
  refine .after fun _ => .after fun _ => .after fun _ => .after fun _ => .after fun _ =>
    .after fun _ => .after fun _ => answers_pure held

/-- The references of a tree are read where the text is. -/
theorem Reading.references_ofCursor {α : Type} {grammar : Grammar α} {own : α → List String}
    (forms : form.AnswersFrom places good)
    (payloads : grammar.read.AnswersFrom places fun value =>
      ∀ reference ∈ own value, good reference)
    (recovery : Recovery) {cursor : Cursor} (held : places cursor) :
    ∀ reference ∈ Statement.references own (ofCursor grammar recovery cursor).statements,
      good reference := by
  have each := Statement.forall_mem_ofCursor Statement.kept_parts payloads
    (Guard.answers_references_readGroup forms Guard.mostNesting) recovery cursor held
  intro reference member
  rcases List.mem_append.1 member with member | member
  · obtain ⟨guard, listed, inside⟩ := List.mem_flatMap.1 member
    exact Statement.forall_mem_guardsAll.2 (fun statement found => (each statement found).2)
      guard listed reference inside
  · obtain ⟨value, listed, inside⟩ := List.mem_flatMap.1 member
    exact Statement.forall_mem_payloadsAll.2 (fun statement found => (each statement found).1)
      value listed reference inside

end Readers

/-- What is written within some tokens as the name of a plugin in quotes, a bar and a word. -/
def FormReference.IsWrittenIn (tokens : List Token) (reference : String) : Prop :=
  ∃ plugin word, [inQuotes plugin, "|", word] <:+: tokens.map Token.text ∧
    IsWrittenAs reference plugin word

/-- A reference that is read within some tokens is written there. -/
theorem Syntax.Reader.answers_form_isWithin (tokens : List Token) :
    form.AnswersFrom (Cursor.IsWithin tokens) (FormReference.IsWrittenIn tokens) := by
  intro cursor reference after within ran
  obtain ⟨plugin, word, words, written⟩ := form_eq_read ran
  have front : [inQuotes plugin, "|", word] <+: cursor.words := ⟨after.words, words.symm⟩
  have back : cursor.words <:+ tokens.map Token.text := within.map Token.text
  exact ⟨plugin, word, front.isInfix.trans back.isInfix, written⟩

/-- Whatever reads a form reference, and wherever it starts, the reference stands for the plugin
between the quotes and the number of the digits exactly when the number fits 32 bits. So does every
reference in the tree of a file, of either record type and whatever happens after faults. -/
theorem references_of_files (cursor : Cursor) (type : RecordType) (recovery : Recovery)
    (source : String) :
    (∀ reference after, Reader.form.run cursor = .read reference after →
      ∃ plugin word, cursor.words = inQuotes plugin :: "|" :: word :: after.words ∧
        FormReference.IsWrittenAs reference plugin word) ∧
    ∀ reference ∈ (PatchFile.read type recovery source).1.references,
      ∃ plugin word, [inQuotes plugin, "|", word] <:+: words source ∧
        FormReference.IsWrittenAs reference plugin word := by
  refine ⟨fun reference after ran => Reader.form_eq_read ran, ?_⟩
  have forms := Reader.answers_form_isWithin (tokenize source)
  have start : Cursor.IsWithin (tokenize source) (.ofText source) := List.suffix_rfl
  cases type with
  | armor =>
    exact Reading.references_ofCursor forms (ArmorPatch.answers_references_read forms) recovery start
  | keyword =>
    exact Reading.references_ofCursor forms (KeywordPatch.answers_references_read forms) recovery
      start

/-- A reference whose number does not fit 32 bits is read, and stands for no form. -/
theorem overlongReference_is_malformed :
    ¬ ∀ source reference after, Reader.form.run (.ofText source) = .read reference after →
      ∃ found, FormReference.parse reference = .ok found := by
  intro accepted
  have valid : IsForm "A|100000000" := ⟨"A", "100000000", by decide, by decide, by decide, by decide⟩
  have reads : Reader.form.Reads (formText "A|100000000") "A|100000000" ";" :=
    Reader.reads_form valid (by decide)
  obtain ⟨after, ran, -⟩ := reads _ (Cursor.words_ofText _)
  obtain ⟨found, parsed⟩ := accepted _ _ _ ran
  have missing : FormReference.parse? "A|100000000" = none := by decide
  simp [FormReference.parse, missing] at parsed

end FormPatch
