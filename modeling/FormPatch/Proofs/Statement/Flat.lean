import FormPatch.Proofs.Syntax.Streaming
import FormPatch.Statement.Recovery

/-!
# Texts without blocks

In a text without chains and braces whose last token is a semicolon, recovery goes through the next
semicolon and no further. Each recovery costs one semicolon, and so does each statement that ends
with its semicolon, which bounds how many of them a text can give.
-/

namespace FormPatch

open Syntax

/-- The number of semicolons among some tokens. -/
def semicolons (tokens : List Token) : Nat := tokens.countP fun token => token.text == ";"

/-- Texts behind each other have the semicolons of both. -/
theorem semicolons_append (front behind : List Token) :
    semicolons (front ++ behind) = semicolons front + semicolons behind :=
  List.countP_append

/-- A semicolon counts itself. -/
theorem semicolons_cons {stop : Token} (stops : stop.text = ";") (tokens : List Token) :
    semicolons (stop :: tokens) = semicolons tokens + 1 := by
  rw [semicolons, List.countP_cons, stops]
  rfl

/-- The end of a text has no more semicolons than the text. -/
theorem semicolons_suffix {tokens rest : List Token} (ends : rest <:+ tokens) :
    semicolons rest ≤ semicolons tokens :=
  ends.sublist.countP_le

/-- A text without chains and braces in which every statement has its semicolon. -/
structure IsFlat (tokens : List Token) : Prop where
  /-- No token starts a chain or is a brace. -/
  plain : ∀ token ∈ tokens, token.text ≠ "if" ∧ token.text ≠ "\x7b" ∧ token.text ≠ "\x7d"
  /-- The last token is a semicolon. -/
  ended : ∀ token ∈ tokens.getLast?, token.text = ";"

/-- Outside of blocks, recovery skips through the next semicolon. -/
theorem Syntax.Cursor.rest_skipFrom {front later : List Token} {stop : Token} (inBlock : Bool)
    (free : ∀ token ∈ front, token.text ≠ ";")
    (plain : ∀ token ∈ front, token.text ≠ "\x7b" ∧ token.text ≠ "\x7d") (stops : stop.text = ";")
    (shown : Position) : (skipFrom inBlock 0 (front ++ stop :: later) shown).rest = later := by
  induction front generalizing shown with
  | nil => simp [skipFrom, stops]
  | cons token front ih =>
    have here := free token List.mem_cons_self
    obtain ⟨opens, closes⟩ := plain token List.mem_cons_self
    simp only [List.cons_append, skipFrom, here, opens, closes, false_and, ↓reduceIte]
    apply ih
    · intro other inside
      exact free other (List.mem_cons_of_mem token inside)
    · intro other inside
      exact plain other (List.mem_cons_of_mem token inside)

namespace IsFlat

variable {tokens rest : List Token} {cursor : Cursor}

/-- The end of a flat text is flat. -/
theorem suffix (flat : IsFlat tokens) (ends : rest <:+ tokens) : IsFlat rest := by
  obtain ⟨front, rfl⟩ := ends
  constructor
  · intro token inside
    exact flat.plain token (List.mem_append_right front inside)
  · intro token last
    apply flat.ended token
    rw [Option.mem_def] at last ⊢
    rw [List.getLast?_append, last, Option.some_or]

/-- No chain starts in a flat text. -/
theorem word_ne (flat : IsFlat cursor.rest) : cursor.word ≠ "if" := by
  obtain ⟨rest, shown⟩ := cursor
  cases rest with
  | nil =>
    show "" ≠ "if"
    decide
  | cons token rest => exact (flat.plain token List.mem_cons_self).1

/-- A text that is not at its end goes on up to a semicolon. -/
theorem split (flat : IsFlat tokens) (more : tokens ≠ []) :
    ∃ front stop later, tokens = front ++ stop :: later ∧
      (∀ token ∈ front, token.text ≠ ";") ∧ stop.text = ";" := by
  induction tokens with
  | nil => exact absurd rfl more
  | cons token tokens ih =>
    by_cases stops : token.text = ";"
    · refine ⟨[], token, tokens, rfl, ?_, stops⟩
      intro other inside
      cases inside
    · have later : tokens ≠ [] := by
        intro none
        subst none
        exact stops (flat.ended token rfl)
      obtain ⟨front, stop, behind, split, free, ends⟩ :=
        ih (flat.suffix (List.suffix_cons token tokens)) later
      refine ⟨token :: front, stop, behind, by rw [split, List.cons_append], ?_, ends⟩
      intro other inside
      cases inside with
      | head => exact stops
      | tail _ inside => exact free other inside

/-- A text that is not at its end has a semicolon. -/
theorem semicolons_pos (flat : IsFlat tokens) (more : tokens ≠ []) : 0 < semicolons tokens := by
  obtain ⟨front, stop, later, split, _, stops⟩ := flat.split more
  rw [split, semicolons_append, semicolons_cons stops]
  omega

/-- A flat text without semicolons is empty. -/
theorem eq_nil (flat : IsFlat tokens) (none : semicolons tokens = 0) : tokens = [] := by
  by_cases ended : tokens = []
  · exact ended
  · have some := flat.semicolons_pos ended
    omega

/-- Recovery takes the text up to its next semicolon, also when the text goes on. -/
theorem rest_recover_extend (flat : IsFlat cursor.rest) (more : cursor.rest ≠ [])
    (inBlock : Bool) :
    ∃ front stop behind, cursor.rest = front ++ stop :: behind ∧ stop.text = ";" ∧
      ∀ later, ((cursor.extend later).recover inBlock).rest = behind ++ later := by
  obtain ⟨front, stop, behind, split, free, stops⟩ := flat.split more
  have plain : ∀ token ∈ front, token.text ≠ "\x7b" ∧ token.text ≠ "\x7d" := by
    intro token inside
    have whole : token ∈ cursor.rest := by
      rw [split]
      exact List.mem_append_left _ inside
    exact (flat.plain token whole).2
  refine ⟨front, stop, behind, split, stops, ?_⟩
  intro later
  have longer : (cursor.extend later).rest = front ++ stop :: (behind ++ later) := by
    rw [Cursor.rest_extend, split, List.append_assoc, List.cons_append]
  rw [Cursor.recover, longer]
  exact Cursor.rest_skipFrom inBlock free plain stops cursor.shown

/-- Where a semicolon is left, recovery is the same in a text that goes on. -/
theorem recover_extend (flat : IsFlat cursor.rest) (more : cursor.rest ≠ []) (inBlock : Bool)
    (later : List Token) :
    ((cursor.extend later).recover inBlock).rest = (cursor.recover inBlock).rest ++ later := by
  obtain ⟨front, stop, behind, _, _, left⟩ := flat.rest_recover_extend more inBlock
  have alone := left []
  rw [Cursor.extend_nil, List.append_nil] at alone
  rw [left, alone]

/-- A text that is not at its end has a semicolon that recovery skips. -/
theorem semicolons_recover (flat : IsFlat cursor.rest) (more : cursor.rest ≠ [])
    (inBlock : Bool) : semicolons (cursor.recover inBlock).rest < semicolons cursor.rest := by
  obtain ⟨front, stop, behind, split, stops, left⟩ := flat.rest_recover_extend more inBlock
  have alone := left []
  rw [Cursor.extend_nil, List.append_nil] at alone
  rw [alone, split, semicolons_append, semicolons_cons stops]
  omega

/-- From wherever a reader stops in a text, recovery ends a semicolon further. -/
theorem semicolons_recover_lt {next : Cursor} (flat : IsFlat tokens) (more : tokens ≠ [])
    (kept : next.rest <:+ tokens) (inBlock : Bool) :
    semicolons (next.recover inBlock).rest < semicolons tokens := by
  by_cases ended : next.rest = []
  · have left := next.recover_suffix inBlock
    rw [ended] at left
    rw [List.suffix_nil.1 left]
    exact flat.semicolons_pos more
  · have taken := (flat.suffix kept).semicolons_recover ended inBlock
    exact Nat.lt_of_lt_of_le taken (semicolons_suffix kept)

end IsFlat

namespace Syntax.Reader

variable {α β : Type}

/-- A reader whose values cost a semicolon. -/
def TakesSemicolon (reader : Reader α) : Prop :=
  ∀ cursor value after, reader.run cursor = .read value after →
    semicolons after.rest < semicolons cursor.rest

/-- Expecting a semicolon takes one. -/
theorem takesSemicolon_expect : (expect ";").TakesSemicolon := by
  intro cursor value after ran
  obtain ⟨found, rfl⟩ := expect_eq_read.1 ran
  have more := Cursor.rest_ne_nil_of_word (by decide) found
  obtain ⟨rest, shown⟩ := cursor
  cases rest with
  | nil => exact absurd rfl more
  | cons token rest =>
    have stops : token.text = ";" := found
    show semicolons rest < semicolons (token :: rest)
    rw [semicolons_cons stops]
    omega

/-- A reader takes a semicolon when the reader in front does. -/
theorem TakesSemicolon.bind {reader : Reader α} (takes : reader.TakesSemicolon)
    (next : α → Reader β) : (reader >>= next).TakesSemicolon := by
  intro cursor value after ran
  obtain ⟨first, middle, head, tail⟩ := bind_eq_read.1 ran
  have taken := takes cursor first middle head
  have kept := (next first).suffix middle
  rw [tail, Outcome.cursor_read] at kept
  exact Nat.lt_of_le_of_lt (semicolons_suffix kept) taken

/-- A reader takes a semicolon when each reader that may come behind does. -/
theorem TakesSemicolon.after {next : α → Reader β} (takes : ∀ value, (next value).TakesSemicolon)
    (reader : Reader α) : (reader >>= next).TakesSemicolon := by
  intro cursor value after ran
  obtain ⟨first, middle, head, tail⟩ := bind_eq_read.1 ran
  have taken := takes first middle value after tail
  have kept := reader.suffix cursor
  rw [head, Outcome.cursor_read] at kept
  exact Nat.lt_of_lt_of_le taken (semicolons_suffix kept)

end Syntax.Reader

end FormPatch
