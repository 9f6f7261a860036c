import FormPatch.Application
import FormPatch.Statement.Grammar
import FormPatch.Text.Blank

/-!
# Keyword patches

A keyword patch gives one keyword a new editor ID. The keyword is named by its reference, or by
the editor ID that it has.
-/

namespace FormPatch

/-- Which keyword is renamed. -/
inductive KeywordFilter where
  /-- The one under a reference. -/
  | form (reference : String)
  /-- The one with an editor ID. -/
  | editorId (text : String)
deriving DecidableEq, Repr

/-- A new editor ID for a keyword. -/
structure KeywordPatch where
  /-- Which keyword is renamed. -/
  filter : KeywordFilter
  /-- The new editor ID. -/
  editorId : String
deriving DecidableEq, Repr

namespace KeywordPatch

open Syntax Syntax.Reader

/-- An editor ID that can be given: it is not empty and holds no blank. -/
def isEditorId (text : String) : Bool :=
  text != "" && !text.toList.any Text.isBlank

/-- The argument of a filter and the filter itself. -/
def readFilter (word : String) : Reader KeywordFilter :=
  if word = "FilterByFormID" then do
    let reference ← form
    pure (.form reference)
  else if word = "FilterByEditorID" then do
    let text ← string
    pure (.editorId text)
  else fail (.filter word)

/-- Reads a patch and its semicolon. -/
def read : Reader KeywordPatch := do
  let word ← next
  expect "("
  let filter ← readFilter word
  expect ")"
  expect "."
  expect "EditorID"
  expect "="
  let editorId ← string
  require (isEditorId editorId) (.editorId editorId)
  expect ";"
  pure ⟨filter, editorId⟩

/-- Writes a patch and its semicolon. -/
def write (level : Nat) (patch : KeywordPatch) : String :=
  let filter :=
    match patch.filter with
    | .form reference => s!"FilterByFormID({formText reference})"
    | .editorId text => s!"FilterByEditorID(\"{text}\")"
  s!"{indent level}{filter}.EditorID = \"{patch.editorId}\";"

/-- The grammar of keyword patches. -/
def grammar : Grammar KeywordPatch := ⟨read, progresses_next.bind _, write⟩

/-- The live keyword that a filter names. An editor ID is looked for among keywords only. -/
def target (patch : KeywordPatch) (store : Store) : Except Failure FormReference :=
  match patch.filter with
  | .form reference => store.resolveTyped reference .keyword
  | .editorId text =>
    match (store.ofType .keyword).find? fun entry => entry.2.isCalled text with
    | none => .error (.unknownForm s!"keyword editor ID {text}")
    | some (reference, _) => store.resolveTyped reference.text .keyword

/-- Applies a patch: the keyword gets its new editor ID. -/
def apply (patch : KeywordPatch) (store : Store) : Applied :=
  match patch.target store with
  | .error failure => .refused store .keyword failure []
  | .ok reference =>
    ⟨store.modify reference fun form => { form with editorId := some patch.editorId }, [],
      [reference]⟩

end KeywordPatch

end FormPatch
