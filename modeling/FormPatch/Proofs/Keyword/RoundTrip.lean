import FormPatch.PatchFile
import FormPatch.Proofs.Statement.Answers

/-!
# Keyword files that are written and read

A keyword patch can be written when the argument of its filter can and its new editor ID is one that
can be given and stand in quotes. Main statement: the text of a tree of such patches is read as that
tree without a fault, and every tree that is read from a text is one.
-/

namespace FormPatch

open Syntax Syntax.Reader

namespace KeywordFilter

/-- Whether the argument of a filter can be written. -/
def IsWritable : KeywordFilter → Prop
  | form reference => IsForm reference
  | editorId text => isQuotable text = true

/-- The word for a filter. -/
def word : KeywordFilter → String
  | form _ => "FilterByFormID"
  | editorId _ => "FilterByEditorID"

/-- The argument of a filter as it is written. -/
def argumentText : KeywordFilter → String
  | form reference => formText reference
  | editorId text => inQuotes text

/-- A filter is written with one of two words. -/
theorem word_mem (filter : KeywordFilter) :
    filter.word ∈ ["FilterByFormID", "FilterByEditorID"] := by
  cases filter with
  | form reference => exact List.mem_cons_self
  | editorId text => exact List.mem_cons_of_mem _ List.mem_cons_self

/-- The word for a filter is a single token. -/
theorem isWord_word (filter : KeywordFilter) : isWord filter.word = true :=
  (by decide : ∀ word ∈ ["FilterByFormID", "FilterByEditorID"], isWord word = true) _
    filter.word_mem

/-- No filter starts with a word of a chain or block. -/
theorem word_apart (filter : KeywordFilter) :
    filter.word ≠ "if" ∧ filter.word ≠ "else" ∧ filter.word ≠ "\x7d" := by
  have others : ∀ word ∈ ["FilterByFormID", "FilterByEditorID"],
      word ≠ "if" ∧ word ≠ "else" ∧ word ≠ "\x7d" := by decide
  exact others _ filter.word_mem

end KeywordFilter

namespace KeywordPatch

/-- A keyword patch that can be written and read back. -/
structure IsWritable (patch : KeywordPatch) : Prop where
  /-- The argument of the filter can be written. -/
  filter : patch.filter.IsWritable
  /-- The new editor ID is one. -/
  named : isEditorId patch.editorId = true
  /-- The new editor ID can stand in quotes. -/
  quotable : isQuotable patch.editorId = true

/-- A patch as it is written behind the word for its filter. -/
def tailText (patch : KeywordPatch) : String :=
  "(" ++ (patch.filter.argumentText ++ (")" ++ ("." ++ ("EditorID" ++ (" " ++ ("=" ++ (" " ++
    (inQuotes patch.editorId ++ ";"))))))))

/-- A patch is written as the word for its filter and what stands behind it. -/
theorem write_eq (level : Nat) (patch : KeywordPatch) :
    grammar.write level patch = indent level ++ (patch.filter.word ++ patch.tailText) := by
  obtain ⟨filter, editorId⟩ := patch
  apply String.toList_inj.1
  cases filter with
  | form reference =>
    simp [grammar, write, KeywordFilter.word, KeywordFilter.argumentText, tailText, inQuotes,
      toString]
  | editorId text =>
    simp [grammar, write, KeywordFilter.word, KeywordFilter.argumentText, tailText, inQuotes,
      toString]

/-- The word for a filter stands in front of the rest of its patch. -/
theorem stands_word_filter (patch : KeywordPatch) (rest : String) :
    Stands patch.filter.word (patch.tailText ++ rest) := by
  refine stands_word patch.filter.isWord_word ?_
  rw [tailText, String.append_assoc]
  exact breaks_append (by decide) _

/-- The written form of a filter's argument is read as the filter. -/
theorem reads_readFilter {filter : KeywordFilter} (writable : filter.IsWritable) {rest : String}
    (broken : breaks rest = true) :
    (readFilter filter.word).Reads filter.argumentText filter rest := by
  cases filter with
  | form reference => exact (reads_form writable broken).last (reads_pure _ rest)
  | editorId text => exact (reads_string writable).last (reads_pure _ rest)

/-- Every filter that is read is one that can be written. -/
theorem answers_readFilter (word : String) :
    (readFilter word).Answers KeywordFilter.IsWritable := by
  unfold readFilter
  split
  · exact answers_form.bind fun reference valid => answers_pure valid
  · split
    · exact answers_string.bind fun text quotable => answers_pure quotable
    · exact answers_fail _

/-- A patch is read back from its word on. -/
theorem reads_read {patch : KeywordPatch} (writable : patch.IsWritable) (rest : String) :
    grammar.read.Reads (patch.filter.word ++ patch.tailText) patch rest := by
  have blank : isBlankText " " = true := by decide
  refine (reads_next (patch.stands_word_filter rest)).bind ?_
  refine (reads_expect (stands_mark (by decide) _)).bind ?_
  refine (reads_readFilter writable.filter ?_).bind ?_
  · rw [String.append_assoc]
    exact breaks_append (by decide) _
  refine (reads_expect (stands_mark (by decide) _)).bind ?_
  refine (reads_expect (stands_mark (by decide) _)).bind ?_
  refine (reads_expect (stands_word (by decide) ?_)).bind (.blank blank ?_)
  · rw [String.append_assoc]
    exact breaks_append (by decide) _
  refine (reads_expect (stands_mark (by decide) _)).bind (.blank blank ?_)
  refine (reads_string writable.quotable).bind ((reads_require writable.named _).ahead ?_)
  exact (reads_expect (stands_mark (by decide) rest)).last (reads_pure patch rest)

/-- A patch that is read from a text can be written. -/
theorem answers_read : grammar.read.Answers IsWritable := by
  refine .after fun word => .after fun _ => (answers_readFilter word).bind fun filter writable => ?_
  refine .after fun _ => .after fun _ => .after fun _ => .after fun _ => ?_
  refine answers_string.bind fun editorId quotable => (answers_require _ _).bind fun _ named => ?_
  exact .after fun _ => answers_pure ⟨writable, named, quotable⟩

/-- The grammar of keyword patches reads back what it writes. -/
theorem readsBack : grammar.ReadsBack IsWritable :=
  .of_words write_eq stands_word_filter (fun patch => patch.filter.word_apart)
    fun _ writable rest => reads_read writable rest

end KeywordPatch

/-- The text of a file that was read from any text, and that of every tree of patches that can be
written, is read as the same file without a fault. -/
theorem roundTrip_of_keyword_trees :
    (∀ source, PatchFile.ofText .keyword (PatchFile.ofText .keyword source).1.text =
      ((PatchFile.ofText .keyword source).1, [])) ∧
    ∀ statements, Statement.IsWritable KeywordPatch.IsWritable statements →
      PatchFile.ofText .keyword (PatchFile.keyword statements).text =
        (.keyword statements, []) := by
  have trees (statements : List (Statement KeywordPatch))
      (writable : Statement.IsWritable KeywordPatch.IsWritable statements) :
      PatchFile.ofText .keyword (PatchFile.keyword statements).text =
        (.keyword statements, []) := by
    have reading := KeywordPatch.readsBack.ofText .resume statements writable
    simp only [PatchFile.ofText, PatchFile.read, PatchFile.text, RecordType.recovery, reading,
      List.map_nil]
  exact ⟨fun source => trees _ (Reading.isWritable_ofText KeywordPatch.answers_read .resume source),
    trees⟩

end FormPatch
