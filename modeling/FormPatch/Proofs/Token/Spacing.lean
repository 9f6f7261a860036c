import FormPatch.Proofs.Token.Words

/-!
# The space between words

Blanks and comments in front of a word and behind it are space. A word of a text is a word again in
every text that has an end of line behind it: what stands behind an end of line can neither go on
with a run of characters nor close a string. Main statement: words that are spaced out in another
way are the words of the text that this makes.
-/

namespace FormPatch

/-- Space: blanks and comments, each of which ends with its line. -/
inductive IsSpace : List Char → Prop
  /-- Nothing. -/
  | nil : IsSpace []
  /-- A blank and more space. -/
  | blank {character : Char} {rest : List Char} (blank : Text.isBlank character = true)
    (space : IsSpace rest) : IsSpace (character :: rest)
  /-- A comment, the end of its line and more space. -/
  | comment {inside rest : List Char} (line : '\n' ∉ inside) (space : IsSpace rest) :
    IsSpace ('#' :: (inside ++ '\n' :: rest))

/-- Space at the end of a text, where a last comment need not end with a line. -/
inductive IsLastSpace : List Char → Prop
  /-- Space. -/
  | space {text : List Char} (space : IsSpace text) : IsLastSpace text
  /-- Space and an open comment. -/
  | comment {front inside : List Char} (space : IsSpace front) (line : '\n' ∉ inside) :
    IsLastSpace (front ++ '#' :: inside)

/-- Whether a text starts with the end of a line: a line feed or a carriage return. -/
def EndsLine (text : String) : Prop :=
  ∃ character rest, text.toList = character :: rest ∧ (character = '\n' ∨ character = '\r')

/-- Words that are spaced out in a text: there is space in front of each of them and at the end, and
behind each word its line ends. -/
inductive Spaced : List String → String → Prop
  /-- The space at the end. -/
  | ends {space : String} (isSpace : IsLastSpace space.toList) : Spaced [] space
  /-- Space, a word and the other words. -/
  | word {space word rest : String} {words : List String} (isSpace : IsSpace space.toList)
    (line : EndsLine rest) (others : Spaced words rest) :
    Spaced (word :: words) (space ++ (word ++ rest))

namespace Piece

/-- A comment goes on up to the end of its line. -/
theorem dropWhile_comment {inside : List Char} (line : '\n' ∉ inside) (rest : List Char) :
    (inside ++ rest).dropWhile (· != '\n') = rest.dropWhile (· != '\n') := by
  refine List.dropWhile_append_of_pos fun character member => ?_
  rw [bne_iff_ne]
  rintro rfl
  exact line member

/-- In front of space, the pieces of a text have the same lexemes. -/
theorem texts_split_space {space : List Char} (isSpace : IsSpace space) (rest : List Char) :
    texts (split (space ++ rest)) = texts (split rest) := by
  induction isSpace with
  | nil => rfl
  | @blank character others blank _ ih =>
    have comment : character ≠ '#' := by
      rintro rfl
      exact absurd blank (by decide)
    rw [List.cons_append, split, first, if_neg comment, if_pos blank]
    exact ih
  | @comment inside others line _ ih =>
    have stops : (inside ++ '\n' :: (others ++ rest)).dropWhile (· != '\n') =
        '\n' :: (others ++ rest) := dropWhile_comment line _
    have blank : Text.isBlank '\n' = true := by decide
    rw [List.cons_append, List.append_assoc, List.cons_append, split, first, if_pos rfl, texts]
    simp only [stops]
    rw [split, first, if_neg (by decide), if_pos blank]
    exact ih

/-- Space at the end of a text holds no lexeme. -/
theorem texts_split_lastSpace {space : List Char} (isSpace : IsLastSpace space) :
    texts (split space) = [] := by
  cases isSpace with
  | space isSpace =>
    have none := texts_split_space isSpace []
    rw [List.append_nil] at none
    rw [none, split, texts]
  | @comment front inside isSpace line =>
    have ended : inside.dropWhile (· != '\n') = [] := by
      have all := dropWhile_comment line []
      rwa [List.append_nil] at all
    rw [texts_split_space isSpace, split, first, if_pos rfl, texts]
    simp only [ended]
    rw [split, texts]

/-- A string literal ends where it did when the end of a line follows. -/
theorem closeString_line (text rest : List Char) {ending : Char}
    (line : ending = '\n' ∨ ending = '\r') :
    closeString ((closeString text).1 ++ ending :: rest) =
      ((closeString text).1, ending :: rest) := by
  have stops : closeString (ending :: rest) = ([], ending :: rest) := by
    rw [closeString, if_pos line]
  induction text with
  | nil => exact stops
  | cons character text ih =>
    rw [closeString]
    split
    · exact stops
    · next apart =>
      split
      · next quote =>
        subst quote
        rfl
      · next quote =>
        show closeString (character :: ((closeString text).1 ++ ending :: rest)) = _
        rw [closeString, if_neg apart, if_neg quote, ih]

end Piece

/-- The first lexeme of a text is a word wherever the end of a line follows. -/
theorem stands_of_lexeme {character : Char} {text characters : List Char} {rest : String}
    (lexed : (Piece.first character text).1 = .lexeme characters) (line : EndsLine rest) :
    Stands (String.ofList characters) rest := by
  obtain ⟨ending, behind, split, line⟩ := line
  unfold Piece.first at lexed
  split at lexed
  · cases lexed
  · next comment =>
    split at lexed
    · cases lexed
    · next blank =>
      split at lexed
      · next quote =>
        subst quote
        cases lexed
        refine stands_of_first String.toList_ofList ?_
        rw [Piece.first, if_neg comment, if_neg blank, if_pos rfl, split]
        simp only [Piece.closeString_line text behind line]
      · next quote =>
        split at lexed
        · next delimiter =>
          cases lexed
          exact stands_mark (by rw [isMark, String.toList_ofList]; exact delimiter) rest
        · next delimiter =>
          cases lexed
          refine stands_word ?_ ?_
          · have here : continuesWord character = true := by
              simp only [continuesWord, Bool.and_eq_true, Bool.not_eq_true', bne_iff_ne]
              exact ⟨⟨by simpa using blank, comment⟩, by simpa using delimiter⟩
            have all : (text.takeWhile continuesWord).all continuesWord = true :=
              List.all_takeWhile
            rw [isWord, String.toList_ofList]
            simp only [List.all_cons, Bool.and_eq_true, bne_iff_ne]
            exact ⟨quote, here, all⟩
          · rw [breaks, split]
            rcases line with rfl | rfl <;> rfl

/-- The words of a text are words wherever the end of a line follows. -/
theorem stands_of_mem_words {source word rest : String} (member : word ∈ words source)
    (line : EndsLine rest) : Stands word rest := by
  rw [words_eq] at member
  generalize source.toList = characters at member
  induction characters using Piece.split.induct with
  | case1 => simp [Piece.split, Piece.texts] at member
  | case2 character others ih =>
    rw [Piece.split] at member
    cases lexed : (Piece.first character others).1 with
    | skipped taken =>
      rw [lexed, Piece.texts] at member
      exact ih member
    | lexeme taken =>
      rw [lexed, Piece.texts, List.mem_cons] at member
      rcases member with rfl | member
      · exact stands_of_lexeme lexed line
      · exact ih member

/-- Words that are spaced out are the words of their text when each of them is one in front of the
end of a line. -/
theorem words_of_spaced {spread : List String} {text : String} (spaced : Spaced spread text)
    (stand : ∀ word ∈ spread, ∀ rest, EndsLine rest → Stands word rest) :
    words text = spread := by
  induction spaced with
  | ends isSpace => rw [words_eq, Piece.texts_split_lastSpace isSpace]
  | @word space word rest others isSpace line _ ih =>
    have first := stand word List.mem_cons_self rest line
    have later := ih fun word member => stand word (List.mem_cons_of_mem _ member)
    rw [words_eq, String.toList_append, Piece.texts_split_space isSpace, ← words_eq, first, later]

end FormPatch
