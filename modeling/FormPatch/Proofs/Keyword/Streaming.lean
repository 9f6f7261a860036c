import FormPatch.Keyword.Patch
import FormPatch.Proofs.Statement.Streaming
import FormPatch.Proofs.Syntax.Composed

/-!
# Keyword patches in texts that go on

The readers of keyword patches are composed, so they stream. They look at no word that they do not
take, and the last word of a patch is its semicolon.
-/

namespace FormPatch.KeywordPatch

open Syntax Syntax.Reader

/-- The reader of a filter is put together from the readers of its parts. -/
theorem composed_readFilter (word : String) : (readFilter word).Composed := by
  unfold readFilter
  split
  · exact composed_form.bind fun _ => .answers _
  · split
    · exact composed_string.bind fun _ => .answers _
    · exact .fails _

/-- Patches are read by a composed reader. -/
theorem composed_read : read.Composed := by
  refine .bind .takes fun word => (composed_expect "(").bind fun _ => ?_
  refine (composed_readFilter word).bind fun _ => (composed_expect ")").bind fun _ => ?_
  refine (composed_expect ".").bind fun _ => (composed_expect "EditorID").bind fun _ => ?_
  refine (composed_expect "=").bind fun _ => composed_string.bind fun _ => ?_
  exact (composed_require _ _).bind fun _ => (composed_expect ";").bind fun _ => .answers _

/-- The reader of keyword patches streams. -/
theorem streams_read : read.Streams :=
  composed_read.streams

/-- A patch that was read stands: whatever is read in it is followed by a fixed word. -/
theorem standsBefore_read (later : List Token) : read.StandsBefore later := by
  refine .after streams_next (fun word => ?_) fun _ => (advances_expect (by decide)).bind _
  refine (standsBefore_expect later (by decide)).bind fun _ => ?_
  refine .after (composed_readFilter word).streams (fun filter => ?_)
    fun _ => (advances_expect (by decide)).bind _
  refine (standsBefore_expect later (by decide)).bind fun _ => ?_
  refine (standsBefore_expect later (by decide)).bind fun _ => ?_
  refine (standsBefore_expect later (by decide)).bind fun _ => ?_
  refine (standsBefore_expect later (by decide)).bind fun _ => ?_
  have semicolon : ∀ text : String, (require (isEditorId text) (.editorId text) >>= fun _ =>
      expect ";" >>= fun _ => pure (⟨filter, text⟩ : KeywordPatch)).Advances :=
    fun text => .after (fun _ => (advances_expect (by decide)).bind _) _
  refine .after streams_string (fun text => ?_) semicolon
  refine .after (streams_require _ _) (fun _ => ?_) fun _ => (advances_expect (by decide)).bind _
  exact (standsBefore_expect later (by decide)).bind fun _ => standsBefore_pure later _

/-- The grammar of keyword patches streams. -/
theorem streams_grammar : grammar.Streams where
  read := streams_read
  stands := standsBefore_read
  advances := .after (fun _ => (advances_expect (by decide)).bind _) _

end FormPatch.KeywordPatch
