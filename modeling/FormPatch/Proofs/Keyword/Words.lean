import FormPatch.Keyword.Patch
import FormPatch.Proofs.Statement.Flat
import FormPatch.Proofs.Syntax.Following

/-!
# The words of a keyword patch

A keyword patch is read word by word, and each word behind the first one has a test to pass. No test
but the last is passed by a semicolon, so a text whose words run out before all tests are made
leaves its semicolon to the reader, while every other text that fails leaves it to recovery.
-/

namespace FormPatch

open Syntax

namespace KeywordPatch

open Syntax.Reader

/-- A patch ends with its semicolon. -/
theorem takesSemicolon_read : read.TakesSemicolon := by
  refine .after (fun word => ?_) next
  refine .after (fun _ => ?_) (expect "(")
  refine .after (fun filter => ?_) (readFilter word)
  refine .after (fun _ => ?_) (expect ")")
  refine .after (fun _ => ?_) (expect ".")
  refine .after (fun _ => ?_) (expect "EditorID")
  refine .after (fun _ => ?_) (expect "=")
  refine .after (fun text => ?_) string
  refine .after (fun _ => ?_) (require (isEditorId text) (.editorId text))
  exact takesSemicolon_expect.bind _

/-- What the words of a filter's argument are tested for. -/
def filterTests? (word : String) : Option (List (String → Bool)) :=
  if word = "FilterByFormID" then some formTests
  else if word = "FilterByEditorID" then some [quoted fun _ => true]
  else none

/-- What the words behind a filter are tested for, up to the semicolon. -/
def closingTests : List (String → Bool) :=
  [(· == ")"), (· == "."), (· == "EditorID"), (· == "="), quoted isEditorId]

/-- What the words of a patch behind its first one are tested for, up to the semicolon. A word that
names no filter is found out behind its parenthesis. -/
def tests (word : String) : List (String → Bool) :=
  (· == "(") :: ((filterTests? word).map (· ++ closingTests)).getD []

/-- Reads what stands behind the first word of a patch. -/
def readBehind (word : String) : Reader KeywordPatch := do
  expect "("
  let filter ← readFilter word
  expect ")"
  expect "."
  expect "EditorID"
  expect "="
  let editorId ← string
  require (isEditorId editorId) (.editorId editorId)
  expect ";"
  pure ⟨filter, editorId⟩

/-- A patch is read from its first word on. -/
theorem run_read_cons (word : Token) (words : List Token) (shown : Position) :
    read.run ⟨word :: words, shown⟩ = (readBehind word.text).run ⟨words, word.position⟩ :=
  rfl

/-- The reader of a filter fails where it stands when the word names none. -/
theorem rejects_readFilter {word : String} (unknown : filterTests? word = none) :
    (readFilter word).Rejects := by
  unfold filterTests? at unknown
  unfold readFilter
  split at unknown
  · cases unknown
  · next noForm =>
    split at unknown
    · cases unknown
    · next noEditorId =>
      rw [if_neg noForm, if_neg noEditorId]
      exact rejects_fail _

/-- Behind a word that names no filter, one word is taken and no patch is read. -/
theorem run_readBehind_of_unknown {word : String} (unknown : filterTests? word = none)
    (cursor : Cursor) : ∃ error, (readBehind word).run cursor = .failed error cursor.take := by
  have taken := cursor_expect "(" cursor
  cases ran : (expect "(").run cursor with
  | failed error after =>
    rw [ran, Outcome.cursor_failed] at taken
    subst taken
    refine ⟨error, ?_⟩
    rw [readBehind, run_bind, ran]
  | read value after =>
    rw [ran, Outcome.cursor_read] at taken
    subst taken
    obtain ⟨error, rejected⟩ := (rejects_readFilter unknown).bind (fun filter => do
      expect ")"
      expect "."
      expect "EditorID"
      expect "="
      let editorId ← string
      require (isEditorId editorId) (.editorId editorId)
      expect ";"
      pure (⟨filter, editorId⟩ : KeywordPatch)) cursor.take
    refine ⟨error, ?_⟩
    rw [readBehind, run_bind, ran]
    exact rejected

/-- The reader of a filter takes the words that its tests ask for. -/
theorem follows_readFilter {word : String} {tests : List (String → Bool)}
    (known : filterTests? word = some tests) : (readFilter word).Follows tests := by
  unfold filterTests? at known
  unfold readFilter
  split at known
  · next form =>
    rw [if_pos form]
    cases known
    exact follows_form.bind fun _ => follows_pure _
  · next noForm =>
    split at known
    · next editorId =>
      rw [if_neg noForm, if_pos editorId]
      cases known
      refine follows_string_bind (fun text _ => follows_pure _) fun text wrong => ?_
      cases wrong
    · cases known

/-- Behind the word for a filter, the words of a patch are tested one by one. -/
theorem follows_readBehind {word : String} {first : List (String → Bool)}
    (known : filterTests? word = some first) :
    (readBehind word).Follows (tests word ++ [(· == ";")]) := by
  have shape : tests word ++ [(· == ";")] =
      [(· == "(")] ++ (first ++ ([(· == ")")] ++ ([(· == ".")] ++ ([(· == "EditorID")] ++
        ([(· == "=")] ++ (quoted isEditorId :: ([(· == ";")] ++ []))))))) := by
    simp [tests, known, closingTests]
  rw [shape]
  refine (follows_expect (by decide)).bind fun _ => ?_
  refine (follows_readFilter known).bind fun filter => ?_
  refine (follows_expect (by decide)).bind fun _ => ?_
  refine (follows_expect (by decide)).bind fun _ => ?_
  refine (follows_expect (by decide)).bind fun _ => ?_
  refine (follows_expect (by decide)).bind fun _ => ?_
  refine follows_string_bind (fun text valid => ?_) fun text wrong => ?_
  · refine follows_require_bind valid ?_
    exact (follows_expect (by decide)).bind fun _ => follows_pure _
  · exact (rejects_require wrong).bind _

/-- No test behind a filter is passed by a semicolon. -/
theorem closingTests_semicolon : ∀ test ∈ closingTests, test ";" = false := by
  simp only [closingTests, List.forall_mem_cons]
  refine ⟨by decide, by decide, by decide, by decide, rfl, ?_⟩
  intro test none
  cases none

/-- No test of a filter is passed by a semicolon. -/
theorem filterTests_semicolon {word : String} {first : List (String → Bool)}
    (known : filterTests? word = some first) : ∀ test ∈ first, test ";" = false := by
  unfold filterTests? at known
  split at known
  · cases known
    simp only [formTests, List.forall_mem_cons]
    refine ⟨rfl, by decide, by decide, ?_⟩
    intro test none
    cases none
  · split at known
    · cases known
      simp only [List.forall_mem_cons]
      refine ⟨rfl, ?_⟩
      intro test none
      cases none
    · cases known

/-- No word but the last of a patch is a semicolon. -/
theorem tests_semicolon (word : String) : ∀ test ∈ tests word, test ";" = false := by
  intro test inside
  cases known : filterTests? word with
  | none =>
    simp only [tests, known, Option.map_none, Option.getD_none, List.mem_singleton] at inside
    subst inside
    decide
  | some first =>
    simp only [tests, known, Option.map_some, Option.getD_some, List.mem_cons,
      List.mem_append] at inside
    rcases inside with rfl | inside | inside
    · decide
    · exact filterTests_semicolon known test inside
    · exact closingTests_semicolon test inside

end KeywordPatch

/-- Whether some words run out before all tests are made, each of them passing its test. -/
def cutShort : List (String → Bool) → List Token → Bool
  | [], _ => false
  | _ :: _, [] => true
  | test :: tests, token :: tokens => test token.text && cutShort tests tokens

section CutShort

variable {words : List Token} {stop : Token} {tests : List (String → Bool)}

/-- Words that are cut short leave the semicolon to a test, which it fails. -/
theorem check_of_cutShort (later : List Token) (stops : stop.text = ";")
    (fails : ∀ test ∈ tests, test ";" = false) (cut : cutShort tests words = true) :
    Syntax.check (tests ++ [(· == ";")]) (words ++ stop :: later) = (false, later) := by
  induction tests generalizing words with
  | nil => cases cut
  | cons test tests ih =>
    cases words with
    | nil =>
      have wrong : test stop.text = false := by
        rw [stops]
        exact fails test List.mem_cons_self
      exact Syntax.check_failed wrong
    | cons token words =>
      simp only [cutShort, Bool.and_eq_true] at cut
      rw [List.cons_append, List.cons_append, Syntax.check_passed cut.1]
      exact ih (fun other inside => fails other (List.mem_cons_of_mem test inside)) cut.2

/-- Other words either pass all tests or fail one and leave the semicolon. -/
theorem check_of_not_cutShort (free : ∀ token ∈ words, token.text ≠ ";")
    (stops : stop.text = ";") (whole : cutShort tests words = false) :
    Syntax.check (tests ++ [(· == ";")]) (words ++ [stop]) ≠ (false, []) := by
  induction tests generalizing words with
  | nil =>
    cases words with
    | nil =>
      have passed : (stop.text == ";") = true := by simpa using stops
      rw [List.nil_append, List.nil_append, Syntax.check_passed passed]
      simp [Syntax.check]
    | cons token words =>
      have wrong : (token.text == ";") = false := by simpa using free token List.mem_cons_self
      rw [List.nil_append, List.cons_append, Syntax.check_failed wrong]
      simp
  | cons test tests ih =>
    cases words with
    | nil => cases whole
    | cons token words =>
      rw [List.cons_append, List.cons_append]
      cases passed : test token.text with
      | false =>
        rw [Syntax.check_failed passed]
        simp
      | true =>
        simp only [cutShort, passed, Bool.true_and] at whole
        rw [Syntax.check_passed passed]
        exact ih (fun other inside => free other (List.mem_cons_of_mem token inside)) whole

end CutShort

end FormPatch
