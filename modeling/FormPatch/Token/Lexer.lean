import FormPatch.Text.Blank
import FormPatch.Token

/-!
# From text to tokens

A text is cut into pieces, each of which is either skipped (a blank character, or a comment from
`#` to the end of its line) or a lexeme: a string literal, a delimiter or a run of other
characters. The tokens are the lexemes with their places.

Main statement: the first piece and what is left behind it join to the text, so nothing is lost or
read twice.
-/

namespace FormPatch

/-- The characters that are tokens of their own wherever they stand outside a string. -/
def delimiters : List Char := ['.', ',', '=', '!', '&', '|', '(', ')', ';']

/-- Whether a character is a token of its own. -/
def isDelimiter (character : Char) : Bool := delimiters.contains character

/-- Whether a run of other characters goes on with this one. -/
def continuesWord (character : Char) : Bool :=
  !Text.isBlank character && character != '#' && !isDelimiter character

/-- A piece of a text. -/
inductive Piece where
  /-- A blank character or a comment. -/
  | skipped (characters : List Char)
  /-- The text of a token. -/
  | lexeme (characters : List Char)
deriving DecidableEq, Repr

namespace Piece

/-- The characters of a piece. -/
def characters : Piece → List Char
  | skipped characters => characters
  | lexeme characters => characters

/-- Splits what follows an opening quote: the string goes through the next quote, or up to the end
of the line or text when there is none. -/
def closeString : List Char → List Char × List Char
  | [] => ([], [])
  | character :: rest =>
    if character = '\n' ∨ character = '\r' then ([], character :: rest)
    else if character = '"' then ([character], rest)
    else
      let (inside, after) := closeString rest
      (character :: inside, after)

/-- A string that is closed and what stands behind it are the text. -/
theorem closeString_append (text : List Char) :
    (closeString text).1 ++ (closeString text).2 = text := by
  induction text with
  | nil => rfl
  | cons character rest ih =>
    unfold closeString
    split
    · rfl
    · split
      · rfl
      · simp [ih]

/-- The first piece of a text that starts with the given character, and what follows it. -/
def first (character : Char) (rest : List Char) : Piece × List Char :=
  if character = '#' then
    (skipped (character :: rest.takeWhile (· != '\n')), rest.dropWhile (· != '\n'))
  else if Text.isBlank character then (skipped [character], rest)
  else if character = '"' then
    let (inside, after) := closeString rest
    (lexeme (character :: inside), after)
  else if isDelimiter character then (lexeme [character], rest)
  else (lexeme (character :: rest.takeWhile continuesWord), rest.dropWhile continuesWord)

/-- The first piece and what stands behind it are the text. -/
theorem first_append (character : Char) (rest : List Char) :
    (first character rest).1.characters ++ (first character rest).2 = character :: rest := by
  unfold first
  split
  · simp [characters, List.takeWhile_append_dropWhile]
  · split
    · rfl
    · split
      · simp [characters, closeString_append]
      · split
        · rfl
        · simp [characters, List.takeWhile_append_dropWhile]

/-- Every piece has a first character. -/
theorem first_characters_pos (character : Char) (rest : List Char) :
    0 < (first character rest).1.characters.length := by
  unfold first
  repeat' split
  all_goals simp [characters]

/-- A piece has at least one character. -/
theorem length_first (character : Char) (rest : List Char) :
    (first character rest).2.length < rest.length + 1 := by
  have total := congrArg List.length (first_append character rest)
  have positive := first_characters_pos character rest
  simp only [List.length_append, List.length_cons] at total
  omega

/-- The pieces of a text, in order. -/
def split : List Char → List Piece
  | [] => []
  | character :: rest =>
    (first character rest).1 :: split (first character rest).2
termination_by text => text.length
decreasing_by exact length_first character rest

/-- The number of bytes that characters take. -/
def byteCount : List Char → Nat
  | [] => 0
  | character :: rest => character.utf8Size + byteCount rest

/-- The lexemes among pieces as tokens, where the first piece starts at the given offset and
place. -/
def locate : Nat → Position → List Piece → List Token
  | _, _, [] => []
  | offset, here, piece :: rest =>
    let later := locate (offset + byteCount piece.characters) (here.afterAll piece.characters) rest
    match piece with
    | skipped _ => later
    | lexeme characters => ⟨String.ofList characters, offset, here⟩ :: later

end Piece

/-- The tokens of a text, in order. -/
def tokenize (source : String) : List Token :=
  Piece.locate 0 Position.start (Piece.split source.toList)

end FormPatch
