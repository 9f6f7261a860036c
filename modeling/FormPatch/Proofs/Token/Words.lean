import FormPatch.Token.Lexer

/-!
# The words of a text

A reader sees of a text the texts of its tokens: its words. They are told from the front of the
text. Blanks count for nothing; a delimiter and a string literal are words whatever follows, and a
run of other characters is one when the text behind it breaks the run.

Main statements: what stands at the front of a text is its first word, and what a string literal of
a text holds can be put in quotes again.
-/

namespace FormPatch

/-- The text in quotes. -/
def inQuotes (text : String) : String := "\"" ++ (text ++ "\"")

/-- Whether a text can stand between quotes: it holds no quote and no end of a line. -/
def isQuotable (text : String) : Bool :=
  text.toList.all fun character => character != '"' && character != '\n' && character != '\r'

/-- Whether a text is a delimiter. -/
def isMark (text : String) : Bool :=
  match text.toList with
  | [character] => isDelimiter character
  | _ => false

/-- Whether a text is a run of other characters, where no string literal or comment starts. -/
def isWord (text : String) : Bool :=
  match text.toList with
  | [] => false
  | character :: rest => character != '"' && (character :: rest).all continuesWord

/-- Whether a text holds nothing but blanks. -/
def isBlankText (text : String) : Bool := text.toList.all Text.isBlank

/-- Whether a text starts with a character that no run goes on with. -/
def breaks (text : String) : Bool :=
  text.toList.head?.any fun character => !continuesWord character

/-- A text still breaks a run when another one stands behind it. -/
theorem breaks_append {front : String} (starts : breaks front = true) (rest : String) :
    breaks (front ++ rest) = true := by
  unfold breaks at *
  rw [String.toList_append]
  cases split : front.toList with
  | nil => simp [split] at starts
  | cons character others => simpa [split] using starts

namespace Piece

/-- The texts of the lexemes among pieces. -/
def texts : List Piece → List String
  | [] => []
  | skipped _ :: rest => texts rest
  | lexeme characters :: rest => String.ofList characters :: texts rest

/-- The tokens of pieces have the texts of the lexemes, wherever the pieces stand. -/
theorem text_locate (offset : Nat) (here : Position) (pieces : List Piece) :
    (locate offset here pieces).map Token.text = texts pieces := by
  induction pieces generalizing offset here with
  | nil => rfl
  | cons piece rest ih =>
    cases piece with
    | skipped characters => exact ih _ _
    | lexeme characters =>
      simp only [locate, texts, List.map_cons]
      rw [ih]

/-- A quotable text is closed by the quote behind it. -/
theorem closeString_quotable {inside : List Char} (rest : List Char)
    (quotable : inside.all
      (fun character => character != '"' && character != '\n' && character != '\r') = true) :
    closeString (inside ++ '"' :: rest) = (inside ++ ['"'], rest) := by
  induction inside with
  | nil => rfl
  | cons character others ih =>
    simp only [List.all_cons, Bool.and_eq_true, bne_iff_ne] at quotable
    obtain ⟨⟨⟨quote, line⟩, feed⟩, later⟩ := quotable
    rw [List.cons_append, closeString, if_neg (by simp [line, feed]), if_neg quote, ih later]
    rfl

/-- What a string literal holds is quotable, with a quote behind it or without. -/
theorem closeString_inside (text : List Char) :
    ∃ inside, inside.all
      (fun character => character != '"' && character != '\n' && character != '\r') = true ∧
        ((closeString text).1 = inside ∨ (closeString text).1 = inside ++ ['"']) := by
  induction text with
  | nil => exact ⟨[], rfl, .inl rfl⟩
  | cons character rest ih =>
    unfold closeString
    split
    · exact ⟨[], rfl, .inl rfl⟩
    · next apart =>
      split
      · next quote => exact ⟨[], rfl, .inr (by simp [quote])⟩
      · next quote =>
        obtain ⟨inside, quotable, closed⟩ := ih
        refine ⟨character :: inside, ?_, closed.imp (by simp [·]) (by simp [·])⟩
        rw [not_or] at apart
        simpa [quote, apart] using quotable

end Piece

/-- The texts of the tokens of a text. -/
def words (source : String) : List String := (tokenize source).map Token.text

/-- A text is the first word of a text that goes on with the given rest. -/
def Stands (word rest : String) : Prop := words (word ++ rest) = word :: words rest

/-- The words of a text are the texts of its pieces. -/
theorem words_eq (source : String) : words source = Piece.texts (Piece.split source.toList) :=
  Piece.text_locate _ _ _

/-- What stands first is the first word. -/
theorem Stands.head? {word rest : String} (stands : Stands word rest) :
    (words (word ++ rest)).head? = some word := by
  rw [stands, List.head?_cons]

/-- The words of a text that starts with a given character. -/
theorem words_cons {source : String} {character : Char} {rest : List Char}
    (starts : source.toList = character :: rest) :
    words source = Piece.texts ((Piece.first character rest).1 ::
      Piece.split (Piece.first character rest).2) := by
  rw [words_eq, starts, Piece.split]

/-- The empty text has no words. -/
theorem words_empty : words "" = [] := by
  rw [words_eq, String.toList_empty, Piece.split, Piece.texts]

/-- Where the first piece is a lexeme, it is the first word. -/
theorem stands_of_first {word rest : String} {character : Char} {others : List Char}
    (spelled : word.toList = character :: others)
    (first : Piece.first character (others ++ rest.toList) =
      (.lexeme (character :: others), rest.toList)) : Stands word rest := by
  have starts : (word ++ rest).toList = character :: (others ++ rest.toList) := by
    rw [String.toList_append, spelled, List.cons_append]
  rw [Stands, words_cons starts, first, Piece.texts, words_eq, ← spelled, String.ofList_toList]

/-- Blanks count for nothing. -/
theorem words_blank {blanks : String} (blank : isBlankText blanks = true) (rest : String) :
    words (blanks ++ rest) = words rest := by
  simp only [words_eq, String.toList_append]
  unfold isBlankText at blank
  generalize blanks.toList = characters at blank ⊢
  induction characters with
  | nil => rfl
  | cons character others ih =>
    simp only [List.all_cons, Bool.and_eq_true] at blank
    have comment : character ≠ '#' := by
      rintro rfl
      exact absurd blank.1 (by decide)
    rw [List.cons_append, Piece.split, Piece.first, if_neg comment, if_pos blank.1]
    exact ih blank.2

/-- A delimiter is the first word whatever follows. -/
theorem stands_mark {mark : String} (delimits : isMark mark = true) (rest : String) :
    Stands mark rest := by
  unfold isMark at delimits
  split at delimits
  · next character spelled =>
    refine stands_of_first spelled ?_
    have apart : (delimiters.all fun character =>
        character != '#' && !Text.isBlank character && character != '"') = true := rfl
    simp only [List.all_eq_true, Bool.and_eq_true, bne_iff_ne, Bool.not_eq_true'] at apart
    obtain ⟨⟨comment, blank⟩, quote⟩ := apart character (by simpa [isDelimiter] using delimits)
    rw [Piece.first, if_neg comment, if_neg (by simp [blank]), if_neg quote, if_pos delimits]
    rfl
  · cases delimits

/-- A text in quotes is the first word whatever follows. -/
theorem stands_inQuotes {text : String} (quotable : isQuotable text = true) (rest : String) :
    Stands (inQuotes text) rest := by
  have spelled : (inQuotes text).toList = '"' :: (text.toList ++ ['"']) := by simp [inQuotes]
  refine stands_of_first spelled ?_
  have closed := Piece.closeString_quotable rest.toList quotable
  rw [Piece.first, if_neg (by decide), if_neg (by decide), if_pos rfl, List.append_assoc,
    List.cons_append, List.nil_append, closed]

/-- Whether no run goes on into a text, which may be empty. -/
def endsRuns (text : String) : Bool :=
  text.toList.head?.all fun character => !continuesWord character

/-- A text that breaks a run ends the runs before it. -/
theorem endsRuns_of_breaks {text : String} (broken : breaks text = true) : endsRuns text = true := by
  unfold breaks at broken
  unfold endsRuns
  cases ahead : text.toList.head? with
  | none => rfl
  | some character => simpa [ahead] using broken

/-- A run is the first word when it does not go on into what follows. -/
theorem stands_run {word rest : String} (runs : isWord word = true)
    (ends : endsRuns rest = true) : Stands word rest := by
  unfold isWord at runs
  split at runs
  · cases runs
  · next character others spelled =>
    simp only [List.all_cons, Bool.and_eq_true, bne_iff_ne] at runs
    obtain ⟨quote, here, behind⟩ := runs
    refine stands_of_first spelled ?_
    simp only [continuesWord, Bool.and_eq_true, Bool.not_eq_true', bne_iff_ne] at here
    obtain ⟨⟨blank, comment⟩, delimiter⟩ := here
    have stops : rest.toList.takeWhile continuesWord = [] ∧
        rest.toList.dropWhile continuesWord = rest.toList := by
      unfold endsRuns at ends
      cases ahead : rest.toList with
      | nil => simp
      | cons next later =>
        have stops : continuesWord next = false := by simpa [ahead] using ends
        simp [stops]
    have all : ∀ character ∈ others, continuesWord character = true := by
      simpa using behind
    rw [Piece.first, if_neg comment, if_neg (by simp [blank]), if_neg quote,
      if_neg (by simp [delimiter]), List.takeWhile_append_of_pos all,
      List.dropWhile_append_of_pos all, stops.1, stops.2, List.append_nil]

/-- A run is the first word when what follows breaks it. -/
theorem stands_word {word rest : String} (runs : isWord word = true)
    (broken : breaks rest = true) : Stands word rest :=
  stands_run runs (endsRuns_of_breaks broken)

namespace Token

/-- The quotes of a text in quotes can be taken off. -/
theorem unquote?_inQuotes (text : String) : unquote? (inQuotes text) = some text := by
  have spelled : (inQuotes text).toList = '"' :: (text.toList ++ ['"']) := by simp [inQuotes]
  simp [unquote?, spelled]

/-- What a string literal holds is quotable: a lexeme that starts with a quote ends with the next
one. -/
theorem isQuotable_of_first {character : Char} {rest characters : List Char} {text : String}
    (lexed : (Piece.first character rest).1 = .lexeme characters)
    (unquoted : unquote? (String.ofList characters) = some text) : isQuotable text = true := by
  unfold Piece.first at lexed
  split at lexed
  · cases lexed
  · split at lexed
    · cases lexed
    · split at lexed
      · next quote =>
        subst quote
        cases lexed
        obtain ⟨inside, quotable, closed⟩ := Piece.closeString_inside rest
        simp only [unquote?, String.toList_ofList] at unquoted
        split at unquoted
        · next ends =>
          obtain rfl := Option.some.inj unquoted
          rcases closed with closed | closed
          · rw [closed] at ends
            have member := List.mem_of_getLast? ends
            simp only [List.all_eq_true] at quotable
            exact absurd (quotable _ member) (by decide)
          · rw [closed, List.dropLast_concat, isQuotable, String.toList_ofList]
            exact quotable
        · cases unquoted
      · next quote =>
        have first : characters.head? = some character := by
          split at lexed <;> cases lexed <;> rfl
        cases characters with
        | nil => cases first
        | cons next others =>
          obtain rfl := Option.some.inj first
          unfold unquote? at unquoted
          split at unquoted
          · next inside spelled =>
            rw [String.toList_ofList] at spelled
            exact absurd (List.cons.inj spelled).1 quote
          · cases unquoted

end Token

/-- What the string literals of a text hold is quotable. -/
theorem isQuotable_of_mem_words {source word text : String} (member : word ∈ words source)
    (unquoted : Token.unquote? word = some text) : isQuotable text = true := by
  rw [words_eq] at member
  generalize source.toList = characters at member
  induction characters using Piece.split.induct with
  | case1 => simp [Piece.split, Piece.texts] at member
  | case2 character rest ih =>
    rw [Piece.split] at member
    cases lexed : (Piece.first character rest).1 with
    | skipped taken =>
      rw [lexed, Piece.texts] at member
      exact ih member
    | lexeme taken =>
      rw [lexed, Piece.texts, List.mem_cons] at member
      rcases member with rfl | member
      · exact Token.isQuotable_of_first lexed unquoted
      · exact ih member

end FormPatch
