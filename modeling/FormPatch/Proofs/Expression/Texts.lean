import FormPatch.PatchFile
import FormPatch.Proofs.Armor.Streaming
import FormPatch.Proofs.Keyword.Streaming
import FormPatch.Proofs.Statement.Places
import FormPatch.Proofs.Token.Spacing

/-!
# Patch texts that are joined or spaced out

A text that was read without a fault keeps its reading when another text is put behind it, and the
text behind is read as on its own. How the words of a text are spaced out makes no difference to
what is read or to what is reported, places apart.

Main statements: the reading of two token lists in a row, and the reading of texts with the same
words.
-/

namespace FormPatch

open Syntax

/-- Behind tokens that are read without a fault, other tokens are read as on their own: their
statements come behind the first ones, and their faults are the only ones, at the same places. -/
theorem concatenation_of_texts (recovery : Recovery) (front behind : List Token)
    (apart : ¬StartsWith "else" behind) :
    ((Reading.ofTokens ArmorPatch.grammar recovery front).faults = [] →
      Reading.ofTokens ArmorPatch.grammar recovery (front ++ behind) =
        ⟨(Reading.ofTokens ArmorPatch.grammar recovery front).statements ++
            (Reading.ofTokens ArmorPatch.grammar recovery behind).statements,
          (Reading.ofTokens ArmorPatch.grammar recovery behind).faults⟩) ∧
    ((Reading.ofTokens KeywordPatch.grammar recovery front).faults = [] →
      Reading.ofTokens KeywordPatch.grammar recovery (front ++ behind) =
        ⟨(Reading.ofTokens KeywordPatch.grammar recovery front).statements ++
            (Reading.ofTokens KeywordPatch.grammar recovery behind).statements,
          (Reading.ofTokens KeywordPatch.grammar recovery behind).faults⟩) := by
  constructor
  · intro clean
    exact Reading.ofCursor_extend ArmorPatch.streams_grammar (.ofTokens front) clean apart
  · intro clean
    exact Reading.ofCursor_extend KeywordPatch.streams_grammar (.ofTokens front) clean apart

/-- A chain of one block without statements, behind which reading looks for another branch. -/
def emptyChain : List Token :=
  tokenize "if (IsPluginExists(\"A\")) \x7b\n\x7d"

/-- A patch and what is left of another one. -/
def brokenText : List Token :=
  tokenize "FilterByEditorID(\"X\").EditorID = \"Y\";\nFilterByEditorID(\"X"

/-- Behind a chain that may go on, a text with a fault is read as on its own. -/
theorem concatenation_behind_chain :
    ¬StartsWith "else" brokenText ∧
      (Reading.ofTokens ArmorPatch.grammar .abort emptyChain).faults = [] ∧
      (Reading.ofTokens KeywordPatch.grammar .abort emptyChain).faults = [] ∧
      (Reading.ofTokens ArmorPatch.grammar .abort (emptyChain ++ brokenText)).faults =
        (Reading.ofTokens ArmorPatch.grammar .abort brokenText).faults ∧
      (Reading.ofTokens KeywordPatch.grammar .abort (emptyChain ++ brokenText)).statements =
        (Reading.ofTokens KeywordPatch.grammar .abort emptyChain).statements ++
          (Reading.ofTokens KeywordPatch.grammar .abort brokenText).statements := by
  have apart : ¬StartsWith "else" brokenText := by decide +kernel
  have armor : (Reading.ofTokens ArmorPatch.grammar .abort emptyChain).faults = [] := by
    decide +kernel
  have keyword : (Reading.ofTokens KeywordPatch.grammar .abort emptyChain).faults = [] := by
    decide +kernel
  obtain ⟨armors, keywords⟩ := concatenation_of_texts .abort emptyChain brokenText apart
  have armorFaults := congrArg Reading.faults (armors armor)
  have keywordStatements := congrArg Reading.statements (keywords keyword)
  exact ⟨apart, armor, keyword, armorFaults, keywordStatements⟩

/-- Files with the same words hold the same statements and are reported alike, places apart. -/
theorem PatchFile.read_congr (type : RecordType) (recovery : Recovery) {left right : String}
    (same : words left = words right) :
    (read type recovery left).1 = (read type recovery right).1 ∧
      (read type recovery left).2.map Located.fault =
        (read type recovery right).2.map Located.fault := by
  have texts : (Cursor.ofTokens (tokenize left)).words =
      (Cursor.ofTokens (tokenize right)).words := same
  cases type with
  | armor =>
    have ignores : ArmorPatch.grammar.read.IgnoresPlaces := ArmorPatch.composed_read.ignoresPlaces
    have alike := Reading.alike_ofCursor ignores recovery texts
    exact ⟨congrArg armor alike.statements, alike.faults⟩
  | keyword =>
    have ignores : KeywordPatch.grammar.read.IgnoresPlaces :=
      KeywordPatch.composed_read.ignoresPlaces
    have alike := Reading.alike_ofCursor ignores recovery texts
    exact ⟨congrArg keyword alike.statements, alike.faults⟩

/-- The message of a warning does not tell where the fault was found. -/
theorem Diagnostic.messages_congr {left right : List Located}
    (same : left.map Located.fault = right.map Located.fault) :
    (left.map Diagnostic.ofFault).map Diagnostic.message =
      (right.map Diagnostic.ofFault).map Diagnostic.message := by
  have messages (faults : List Located) : (faults.map Diagnostic.ofFault).map Diagnostic.message =
      (faults.map Located.fault).map Fault.message := by
    rw [List.map_map, List.map_map]
    rfl
  rw [messages, messages, same]

/-- Words that are spaced out in another way are the words of the text that this makes, and texts
with the same words hold the same statements and give the same messages, in the same order. -/
theorem meaning_of_spacings :
    (∀ source text : String, Spaced (words source) text → words text = words source) ∧
    ∀ (type : RecordType) (recovery : Recovery) (left right : String), words left = words right →
      (PatchFile.read type recovery left).1 = (PatchFile.read type recovery right).1 ∧
      ((PatchFile.read type recovery left).2.map Diagnostic.ofFault).map Diagnostic.message =
        ((PatchFile.read type recovery right).2.map Diagnostic.ofFault).map Diagnostic.message := by
  constructor
  · intro source text spaced
    exact words_of_spaced spaced fun word member rest line => stands_of_mem_words member line
  · intro type recovery left right same
    obtain ⟨files, faults⟩ := PatchFile.read_congr type recovery same
    exact ⟨files, Diagnostic.messages_congr faults⟩

/-- A text with a quote inside a run, a comment, and a literal that its line cuts off. -/
def crowdedText : String :=
  "a\"b;# \"\n\"# ;\r\n"

/-- The same words, each on a line of its own, with comments between them and at the end. -/
def spacedText : String :=
  "" ++ ("a\"b" ++ ("\n#;\n\t" ++ (";" ++ ("\r" ++ ("\"# ;" ++ "\n# end")))))

/-- The crowded text and the spaced one have the same words, so they are read alike. -/
theorem meaning_of_crowdedText :
    Spaced (words crowdedText) spacedText ∧ words spacedText = words crowdedText ∧
      (PatchFile.read .keyword .resume spacedText).1 =
        (PatchFile.read .keyword .resume crowdedText).1 := by
  have crowded : words crowdedText = ["a\"b", ";", "\"# ;"] := by decide +kernel
  have spaced : Spaced (words crowdedText) spacedText := by
    rw [crowded]
    have ended : IsLastSpace (['\n'] ++ '#' :: [' ', 'e', 'n', 'd']) :=
      .comment (.blank (by decide) .nil) (by decide)
    have between : IsSpace ('\n' :: '#' :: ([';'] ++ '\n' :: ['\t'])) :=
      .blank (by decide) (.comment (by decide) (.blank (by decide) .nil))
    have literal : Spaced ["\"# ;"] ("\r" ++ ("\"# ;" ++ "\n# end")) :=
      .word (.blank (by decide) .nil) ⟨'\n', _, rfl, .inl rfl⟩ (.ends ended)
    have mark : Spaced [";", "\"# ;"] ("\n#;\n\t" ++ (";" ++ ("\r" ++ ("\"# ;" ++ "\n# end")))) :=
      .word between ⟨'\r', _, rfl, .inr rfl⟩ literal
    exact .word .nil ⟨'\n', _, rfl, .inl rfl⟩ mark
  have same := meaning_of_spacings.1 crowdedText spacedText spaced
  exact ⟨spaced, same, (meaning_of_spacings.2 .keyword .resume _ _ same).1⟩

end FormPatch
