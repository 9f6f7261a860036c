import FormPatch.Syntax.Reader

/-!
# Recovery

After a fault, reading may go on behind the failed statement. The rest of that statement is
skipped: through its semicolon, or through a whole block with the blocks that follow it after
`else`. Inside a block nothing past the block is skipped.

Main statement: skipping takes tokens from the front.
-/

namespace FormPatch.Syntax

/-- What happens after a statement that could not be read. -/
inductive Recovery where
  /-- Reading ends. -/
  | abort
  /-- Reading goes on behind the failed statement. -/
  | resume
deriving DecidableEq, Repr

namespace Cursor

/-- Skips the rest of a failed statement, of which some blocks have been opened and not closed. -/
def skipFrom (inBlock : Bool) : Nat → List Token → Position → Cursor
  | _, [], shown => ⟨[], shown⟩
  | 0, token :: rest, _ =>
    if token.text = "\x7d" ∧ inBlock then ⟨token :: rest, token.position⟩
    else if token.text = "\x7b" then skipFrom inBlock 1 rest token.position
    else if token.text = ";" then ⟨rest, token.position⟩
    else skipFrom inBlock 0 rest token.position
  | depth + 1, token :: rest, _ =>
    if token.text = "\x7d" then
      let after : Cursor := ⟨rest, token.position⟩
      if depth = 0 ∧ after.word ≠ "else" then after.look
      else skipFrom inBlock depth rest token.position
    else if token.text = "\x7b" then skipFrom inBlock (depth + 2) rest token.position
    else skipFrom inBlock (depth + 1) rest token.position

/-- Skips the rest of a failed statement. -/
def recover (inBlock : Bool) (cursor : Cursor) : Cursor :=
  skipFrom inBlock 0 cursor.rest cursor.shown

/-- Skipping only takes tokens. -/
theorem skipFrom_suffix (inBlock : Bool) (depth : Nat) (tokens : List Token) (shown : Position) :
    (skipFrom inBlock depth tokens shown).rest <:+ tokens := by
  fun_induction skipFrom inBlock depth tokens shown with
  | case1 | case2 => exact List.suffix_rfl
  | case4 => exact List.suffix_cons _ _
  | case6 => rw [Cursor.rest_look]; exact List.suffix_cons _ _
  | case3 | case5 | case7 | case8 | case9 =>
    exact (by assumption : _ <:+ _).trans (List.suffix_cons _ _)

/-- Recovery only takes tokens. -/
theorem recover_suffix (inBlock : Bool) (cursor : Cursor) :
    (cursor.recover inBlock).rest <:+ cursor.rest :=
  skipFrom_suffix _ _ _ _

end Cursor

end FormPatch.Syntax
