import FormPatch.Syntax.Value

/-!
# Grammars of expressions

A record type has a grammar of its own for expressions: how one is read, up to and with its
semicolon, and how one is written.
-/

namespace FormPatch

/-- How the expressions of one record type are read and written. -/
structure Grammar (α : Type) where
  /-- Reads an expression and its semicolon. -/
  read : Syntax.Reader α
  /-- Reading takes a token even when it fails. -/
  progresses : read.Progresses
  /-- Writes an expression and its semicolon, indented to a level of nesting. -/
  write : Nat → α → String

end FormPatch
