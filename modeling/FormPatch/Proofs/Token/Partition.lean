import FormPatch.Proofs.Token.Places
import FormPatch.Proofs.Token.Spacing

/-!
# How tokens part a text

The tokens of a text and the space between them are the text, from the first character to the last.
Each token is a delimiter, a string literal or a run of other characters that cannot go on. Where it
starts is counted in bytes for its span and in lines and characters for its place; both are told
from the characters in front of it. Main statement: tokens part every text in this way.
-/

namespace FormPatch

/-- What a token can be. -/
inductive LexemeKind where
  /-- A delimiter. -/
  | mark
  /-- A string literal with both quotes. -/
  | closedString
  /-- A string literal without the closing quote. -/
  | openString
  /-- A run of other characters. -/
  | run
deriving DecidableEq, Repr

/-- Whether characters are a lexeme of some kind in front of the rest of a text. -/
inductive IsLexeme : LexemeKind → List Char → List Char → Prop
  /-- A delimiter is one wherever it stands. -/
  | mark {character : Char} {behind : List Char} (delimiter : isDelimiter character = true) :
    IsLexeme .mark [character] behind
  /-- A string literal goes up to the next quote, if that comes in the same line. -/
  | closedString {inside behind : List Char}
    (quotable : ∀ character ∈ inside, character ≠ '"' ∧ character ≠ '\n' ∧ character ≠ '\r') :
    IsLexeme .closedString ('"' :: (inside ++ ['"'])) behind
  /-- Without a quote in the same line it goes up to the end of the line or the text. -/
  | openString {inside behind : List Char}
    (quotable : ∀ character ∈ inside, character ≠ '"' ∧ character ≠ '\n' ∧ character ≠ '\r')
    (ends : ∀ character ∈ behind.head?, character = '\n' ∨ character = '\r') :
    IsLexeme .openString ('"' :: inside) behind
  /-- A run of characters that are neither blank nor a delimiter nor `#`, of which the first is no
  quote, goes on as long as it can. -/
  | run {characters behind : List Char} (filled : characters ≠ [])
    (quote : characters.head? ≠ some '"')
    (all : ∀ character ∈ characters, continuesWord character = true)
    (ends : ∀ character ∈ behind.head?, continuesWord character = false) :
    IsLexeme .run characters behind

/-- The token of some characters behind others. -/
def Token.behind (front characters : List Char) : Token :=
  ⟨String.ofList characters, Piece.byteCount front, Position.behind front⟩

/-- Tokens that part what follows some characters: there is space in front of each of them and at
the end, and nothing else is left over. -/
inductive Cut : List Char → List Token → List Char → Prop
  /-- The space at the end. -/
  | last {front space : List Char} (isSpace : IsLastSpace space) : Cut front [] space
  /-- Space, a token and the other tokens. -/
  | token {front gap characters behind : List Char} {kind : LexemeKind} {tokens : List Token}
    (isSpace : IsSpace gap) (lexeme : IsLexeme kind characters behind)
    (others : Cut (front ++ gap ++ characters) tokens behind) :
    Cut front (Token.behind (front ++ gap) characters :: tokens)
      (gap ++ (characters ++ behind))

namespace Piece

/-- What follows an opening quote makes a string literal with it, closed or not. -/
theorem isLexeme_closeString (text : List Char) :
    ∃ kind, IsLexeme kind ('"' :: (closeString text).1) (closeString text).2 := by
  have cases : ∃ inside,
      (∀ character ∈ inside, character ≠ '"' ∧ character ≠ '\n' ∧ character ≠ '\r') ∧
        ((closeString text).1 = inside ++ ['"'] ∨ (closeString text).1 = inside ∧
          ∀ character ∈ (closeString text).2.head?, character = '\n' ∨ character = '\r') := by
    induction text with
    | nil => exact ⟨[], by simp, .inr ⟨rfl, by simp [closeString]⟩⟩
    | cons character rest ih =>
      unfold closeString
      split
      · next line => exact ⟨[], by simp, .inr ⟨rfl, by simpa using line⟩⟩
      · next apart =>
        split
        · next quote => exact ⟨[], by simp, .inl (by simp [quote])⟩
        · next quote =>
          rw [not_or] at apart
          obtain ⟨inside, quotable, closed⟩ := ih
          refine ⟨character :: inside, ?_, closed.imp (by simp [·]) (by simpa using ·)⟩
          exact List.forall_mem_cons.2 ⟨⟨quote, apart⟩, quotable⟩
  obtain ⟨inside, quotable, closed | ⟨opened, ends⟩⟩ := cases
  · rw [closed]
    exact ⟨.closedString, .closedString quotable⟩
  · rw [opened]
    exact ⟨.openString, .openString quotable ends⟩

/-- The first piece of a text is a blank, a comment up to the end of its line, or a lexeme. -/
theorem first_cases (character : Char) (rest : List Char) :
    (first character rest = (skipped [character], rest) ∧ Text.isBlank character = true) ∨
    (∃ inside behind, first character rest = (skipped ('#' :: inside), behind) ∧
      '\n' ∉ inside ∧ ∀ ending ∈ behind.head?, ending = '\n') ∨
    ∃ kind characters behind, first character rest = (lexeme characters, behind) ∧
      IsLexeme kind characters behind := by
  have goes (test : Char → Bool) : ∀ inside ∈ rest.takeWhile test, test inside = true :=
    List.all_eq_true.1 List.all_takeWhile
  have stops (test : Char → Bool) :
      ∀ ending ∈ (rest.dropWhile test).head?, test ending = false := by
    intro ending member
    have stopped := List.head?_dropWhile_not test rest
    rwa [Option.mem_def.1 member] at stopped
  unfold first
  split
  · next comment =>
    subst comment
    refine .inr (.inl ⟨_, _, rfl, fun member => ?_, fun ending member => ?_⟩)
    · simpa using goes _ _ member
    · simpa using stops _ ending member
  · next comment =>
    split
    · next blank => exact .inl ⟨rfl, blank⟩
    · next blank =>
      split
      · next quote =>
        subst quote
        obtain ⟨kind, lexeme⟩ := isLexeme_closeString rest
        exact .inr (.inr ⟨kind, _, _, rfl, lexeme⟩)
      · next quote =>
        split
        · next delimiter => exact .inr (.inr ⟨.mark, _, _, rfl, .mark delimiter⟩)
        · next delimiter =>
          have here : continuesWord character = true := by
            simp only [continuesWord, Bool.and_eq_true, Bool.not_eq_true', bne_iff_ne]
            exact ⟨⟨by simpa using blank, comment⟩, by simpa using delimiter⟩
          refine .inr (.inr ⟨.run, _, _, rfl, .run (by simp) (by simpa using quote) ?_ (stops _)⟩)
          exact List.forall_mem_cons.2 ⟨here, goes _⟩

end Piece

/-- No lexeme starts with the end of a line. -/
theorem IsLexeme.starts {kind : LexemeKind} {characters behind : List Char}
    (lexeme : IsLexeme kind characters behind) :
    ∃ character rest, characters = character :: rest ∧ character ≠ '\n' := by
  cases lexeme with
  | @mark character behind delimiter =>
    refine ⟨character, [], rfl, ?_⟩
    rintro rfl
    exact absurd delimiter (by decide)
  | closedString quotable => exact ⟨_, _, rfl, by decide⟩
  | openString quotable ends => exact ⟨_, _, rfl, by decide⟩
  | run filled quote all ends =>
    obtain ⟨character, rest, rfl⟩ := List.exists_cons_of_ne_nil filled
    refine ⟨character, rest, rfl, ?_⟩
    rintro rfl
    exact absurd (all '\n' List.mem_cons_self) (by decide)

/-- What starts with the end of a line has it in its space. -/
theorem starts_of_append {gap rest : List Char} (apart : rest.head? ≠ some '\n')
    (filled : gap ++ rest ≠ []) (ends : ∀ ending ∈ (gap ++ rest).head?, ending = '\n') :
    gap.head? = some '\n' := by
  cases gap with
  | nil =>
    obtain ⟨character, others, rfl⟩ := List.exists_cons_of_ne_nil filled
    exact absurd (congrArg some (ends character rfl)) apart
  | cons character gap => exact congrArg some (ends character rfl)

/-- Space that starts with the end of a line ends a comment in front of it. -/
theorem IsSpace.comment_of_line {inside gap : List Char} (line : '\n' ∉ inside)
    (isSpace : IsSpace gap) (starts : gap.head? = some '\n') :
    IsSpace ('#' :: (inside ++ gap)) := by
  cases isSpace with
  | nil => cases starts
  | blank blank space =>
    cases starts
    exact .comment line space
  | comment other space => cases starts

namespace Cut

variable {front rest : List Char} {tokens : List Token}

/-- A blank in front of a text goes with the space there. -/
theorem blank {character : Char} (blank : Text.isBlank character = true)
    (cut : Cut (front ++ [character]) tokens rest) : Cut front tokens (character :: rest) := by
  cases cut with
  | last isSpace =>
    refine .last ?_
    cases isSpace with
    | space isSpace => exact .space (.blank blank isSpace)
    | @comment front inside isSpace line => exact .comment (.blank blank isSpace) line
  | @token _ gap characters behind kind tokens isSpace lexeme others =>
    have moved : front ++ [character] ++ gap = front ++ (character :: gap) := by simp
    rw [moved] at others ⊢
    exact .token (.blank blank isSpace) lexeme others

/-- A comment in front of a text goes with the space there, which its line ends. -/
theorem comment {inside : List Char} (line : '\n' ∉ inside)
    (ends : ∀ ending ∈ rest.head?, ending = '\n') (cut : Cut (front ++ '#' :: inside) tokens rest) :
    Cut front tokens ('#' :: (inside ++ rest)) := by
  cases cut with
  | last isSpace =>
    refine .last ?_
    cases isSpace with
    | space isSpace =>
      by_cases filled : rest = []
      · subst filled
        rw [List.append_nil]
        exact .comment .nil line
      · have starts : rest.head? = some '\n' := by
          obtain ⟨character, others, rfl⟩ := List.exists_cons_of_ne_nil filled
          exact congrArg some (ends character rfl)
        exact .space (isSpace.comment_of_line line starts)
    | @comment gap inside' isSpace line' =>
      have starts : gap.head? = some '\n' := starts_of_append (by simp) (by simp) ends
      have all := IsLastSpace.comment (isSpace.comment_of_line line starts) line'
      rwa [List.cons_append, List.append_assoc] at all
  | @token _ gap characters behind kind tokens isSpace lexeme others =>
    have moved : front ++ '#' :: inside ++ gap = front ++ ('#' :: (inside ++ gap)) := by simp
    obtain ⟨character, others', rfl, apart⟩ := lexeme.starts
    have starts : gap.head? = some '\n' :=
      starts_of_append (by simpa using apart) (by simp) ends
    rw [moved] at others ⊢
    have all : Cut front _ ('#' :: (inside ++ gap) ++ (_ ++ behind)) :=
      .token (isSpace.comment_of_line line starts) lexeme others
    rwa [List.cons_append, List.append_assoc] at all

end Cut

namespace Piece

variable (front characters : List Char) (pieces : List Piece)

/-- What is skipped goes to the front. -/
theorem locate_skipped :
    locate (byteCount front) (Position.behind front) (skipped characters :: pieces) =
      locate (byteCount (front ++ characters)) (Position.behind (front ++ characters)) pieces := by
  rw [byteCount_append, ← Position.afterAll_behind]
  rfl

/-- A lexeme is a token and goes to the front. -/
theorem locate_lexeme :
    locate (byteCount front) (Position.behind front) (lexeme characters :: pieces) =
      Token.behind front characters ::
        locate (byteCount (front ++ characters)) (Position.behind (front ++ characters))
          pieces := by
  rw [byteCount_append, ← Position.afterAll_behind]
  rfl

/-- Tokens part what follows some characters. -/
theorem cut_split (text front : List Char) :
    Cut front (locate (byteCount front) (Position.behind front) (split text)) text := by
  induction text using split.induct generalizing front with
  | case1 =>
    rw [split]
    exact .last (.space .nil)
  | case2 character rest ih =>
    have whole := first_append character rest
    rw [split]
    rcases first_cases character rest with
      ⟨piece, blank⟩ | ⟨inside, behind, piece, line, ends⟩ |
      ⟨kind, characters, behind, piece, lexeme⟩
    · rw [piece] at ih ⊢
      rw [locate_skipped]
      exact (ih _).blank blank
    · rw [piece] at ih whole ⊢
      rw [locate_skipped, ← whole]
      exact (ih _).comment line ends
    · rw [piece] at ih whole ⊢
      rw [locate_lexeme, ← whole]
      have others : Cut (front ++ [] ++ characters)
          (locate (byteCount (front ++ characters)) (Position.behind (front ++ characters))
            (split behind)) behind := by
        rw [List.append_nil]
        exact ih _
      have all := Cut.token .nil lexeme others
      rwa [List.append_nil] at all

end Piece

/-- The tokens of a text part it. -/
theorem cut_tokenize (source : String) : Cut [] (tokenize source) source.toList :=
  Piece.cut_split source.toList []

/-- Whether no run can come from in front: the last character there goes on with no run, or a
closed string literal ends there. -/
def Fresh (earlier : List Token) (front : List Char) : Prop :=
  (∀ character ∈ front.getLast?, continuesWord character = false) ∨
    ∃ token ∈ earlier, token.isClosedString = true ∧ token.span.stop = Piece.byteCount front

namespace Token

/-- How a token of a text lies between what is in front of it and what is behind it. -/
structure LiesAt (source : String) (tokens : List Token) (token : Token) (front after : List Char)
    (kind : LexemeKind) : Prop where
  /-- The text is what is in front, the token and what is behind. -/
  whole : source.toList = front ++ (token.text.toList ++ after)
  /-- The span starts behind the bytes in front. -/
  offset : token.span.first = Piece.byteCount front
  /-- The place is the one behind the characters in front. -/
  place : token.position = .behind front
  /-- The token is a lexeme of its kind. -/
  lexeme : IsLexeme kind token.text.toList after
  /-- String literals test as such. -/
  string : token.isString = true ↔ kind = .closedString ∨ kind = .openString
  /-- Closed string literals test as such. -/
  closed : token.isClosedString = true ↔ kind = .closedString
  /-- A run starts where none could come from in front. -/
  fresh : kind = .run → Fresh tokens front

/-- How a token fits into a text. -/
structure Fits (source : String) (tokens : List Token) (token : Token) : Prop where
  /-- The token has text. -/
  filled : token.text ≠ ""
  /-- The span has bytes. -/
  covers : token.span.first < token.span.stop
  /-- The text is what the span covers. -/
  slice : token.span.text source = token.text
  /-- The token lies somewhere in the text. -/
  lies : ∃ front after kind, token.LiesAt source tokens front after kind

variable {kind : LexemeKind} {characters after : List Char}

/-- Without a quote in front, a token is no string literal. -/
theorem isString_of_unquoted {token : Token} (apart : token.text.toList.head? ≠ some '"') :
    token.isString = false ∧ token.isClosedString = false := by
  refine ⟨by simpa [isString, opensString] using apart, ?_⟩
  unfold isClosedString unquote?
  split
  · next rest split => exact absurd (by rw [split]; rfl) apart
  · rfl

/-- The tests for string literals tell the kind of a token. -/
theorem isString_of_lexeme {token : Token} (spelled : token.text.toList = characters)
    (lexeme : IsLexeme kind characters after) :
    (token.isString = true ↔ kind = .closedString ∨ kind = .openString) ∧
      (token.isClosedString = true ↔ kind = .closedString) := by
  cases lexeme with
  | @mark character behind delimiter =>
    have apart : token.text.toList.head? ≠ some '"' := by
      rw [spelled]
      rintro quote
      cases quote
      exact absurd delimiter (by decide)
    simp [isString_of_unquoted apart]
  | @closedString inside behind quotable =>
    simp [isString, opensString, isClosedString, unquote?, spelled]
  | @openString inside behind quotable ends =>
    have last : inside.getLast? ≠ some '"' := fun last =>
      (quotable _ (List.mem_of_getLast? last)).1 rfl
    simp [isString, opensString, isClosedString, unquote?, spelled, last]
  | run filled quote all ends =>
    have apart : token.text.toList.head? ≠ some '"' := by
      rwa [spelled]
    simp [isString_of_unquoted apart]

/-- A token that is a lexeme behind some characters fits. -/
theorem fits_behind {source : String} {tokens : List Token} {front : List Char}
    (whole : source.toList = front ++ (characters ++ after))
    (lexeme : IsLexeme kind characters after) (fresh : kind = .run → Fresh tokens front) :
    (behind front characters).Fits source tokens := by
  obtain ⟨character, rest, cons, _⟩ := lexeme.starts
  have filled : characters ≠ [] := by simp [cons]
  have spelled : (behind front characters).text.toList = characters := String.toList_ofList
  have size : (behind front characters).text.utf8ByteSize = Piece.byteCount characters :=
    Piece.utf8ByteSize_ofList characters
  have span : (behind front characters).span =
      ⟨Piece.byteCount front, Piece.byteCount front + Piece.byteCount characters⟩ := by
    simp only [Token.span, size]
    rfl
  obtain ⟨string, closed⟩ := isString_of_lexeme spelled lexeme
  refine ⟨fun empty => filled ?_, ?_, ?_, front, after, kind, ?_⟩
  · rw [← spelled, empty, String.toList_empty]
  · rw [span]
    exact Nat.lt_add_of_pos_right (Piece.byteCount_pos filled)
  · rw [span]
    exact Span.text_of_split whole
  · exact ⟨by rwa [spelled], rfl, rfl, by rwa [spelled], string, closed, fresh⟩

end Token

/-- How all tokens of a text part it. -/
structure Partitions (source : String) (tokens : List Token) : Prop where
  /-- Tokens and space are the text. -/
  cut : Cut [] tokens source.toList
  /-- Spans come one after the other. -/
  apart : tokens.Pairwise fun left right => left.span.stop ≤ right.span.first
  /-- Each token fits. -/
  fits : ∀ token ∈ tokens, token.Fits source tokens

/-- Space ends with a character that goes on with no run. -/
theorem IsSpace.ends {gap : List Char} (isSpace : IsSpace gap) :
    ∀ last ∈ gap.getLast?, continuesWord last = false := by
  have ends {character : Char} {rest : List Char} (here : continuesWord character = false)
      (later : ∀ last ∈ rest.getLast?, continuesWord last = false) :
      ∀ last ∈ (character :: rest).getLast?, continuesWord last = false := by
    cases ended : rest.getLast? with
    | none => simpa [List.getLast?_cons, ended] using here
    | some last => simpa [List.getLast?_cons, ended] using later last ended
  induction isSpace with
  | nil => simp
  | blank blank isSpace ih => exact ends (by simp [continuesWord, blank]) ih
  | @comment inside rest line isSpace ih =>
    have last : ('#' :: (inside ++ '\n' :: rest)).getLast? = ('\n' :: rest).getLast? := by
      simp [List.getLast?_cons, List.getLast?_append]
    rw [last]
    exact ends (by decide) ih

/-- A run behind space starts afresh: where there is none, what is in front must not be able to go
on with it. -/
theorem IsLexeme.fresh_of_run {earlier : List Token} {front gap characters behind : List Char}
    (lexeme : IsLexeme .run characters behind) (isSpace : IsSpace gap)
    (edge : Fresh earlier front ∨
      ∀ character ∈ (gap ++ (characters ++ behind)).head?, continuesWord character = false) :
    Fresh earlier (front ++ gap) := by
  cases gap with
  | nil =>
    rw [List.append_nil]
    refine edge.resolve_right fun stops => ?_
    obtain ⟨character, rest, rfl, _⟩ := lexeme.starts
    cases lexeme with
    | run filled quote all ends =>
      have goes := all character List.mem_cons_self
      rw [stops character rfl] at goes
      cases goes
  | cons character gap =>
    have last : (front ++ character :: gap).getLast? = (character :: gap).getLast? := by
      simp [List.getLast?_cons, List.getLast?_append]
    refine .inl ?_
    rw [last]
    exact isSpace.ends

/-- Behind a token either no run can come from in front or none can come next. -/
theorem IsLexeme.fresh_or_ends {kind : LexemeKind} {front characters behind : List Char}
    (earlier : List Token) (lexeme : IsLexeme kind characters behind) :
    Fresh (earlier ++ [Token.behind front characters]) (front ++ characters) ∨
      ∀ character ∈ behind.head?, continuesWord character = false := by
  cases lexeme with
  | mark delimiter => exact .inl (.inl (by simp [continuesWord, delimiter]))
  | @closedString inside behind quotable =>
    have spelled : (Token.behind front ('"' :: (inside ++ ['"']))).text.toList =
        '"' :: (inside ++ ['"']) := String.toList_ofList
    have lexeme : IsLexeme .closedString ('"' :: (inside ++ ['"'])) behind := .closedString quotable
    have closed := (Token.isString_of_lexeme spelled lexeme).2.2 rfl
    refine .inl (.inr ⟨_, List.mem_append_right _ List.mem_cons_self, closed, ?_⟩)
    rw [Piece.byteCount_append]
    exact congrArg _ (Piece.utf8ByteSize_ofList _)
  | openString quotable ends =>
    refine .inr fun character member => ?_
    rcases ends character member with rfl | rfl <;> decide
  | run filled quote all ends => exact .inr ends

namespace Cut

variable {front rest : List Char} {tokens : List Token}

/-- Tokens stand behind what is in front of all. -/
theorem byteCount_le (cut : Cut front tokens rest) :
    ∀ token ∈ tokens, Piece.byteCount front ≤ token.span.first := by
  induction cut with
  | last isSpace => simp
  | @token front gap characters behind kind tokens isSpace lexeme others ih =>
    simp only [Piece.byteCount_append] at ih
    refine List.forall_mem_cons.2 ⟨?_, fun token member => ?_⟩
    · have here : Piece.byteCount front ≤ Piece.byteCount (front ++ gap) := by
        rw [Piece.byteCount_append]
        exact Nat.le_add_right _ _
      exact here
    · have later := ih token member
      omega

/-- Spans come one after the other. -/
theorem pairwise (cut : Cut front tokens rest) :
    tokens.Pairwise fun left right => left.span.stop ≤ right.span.first := by
  induction cut with
  | last isSpace => exact .nil
  | @token front gap characters behind kind tokens isSpace lexeme others ih =>
    refine List.pairwise_cons.2 ⟨fun token member => ?_, ih⟩
    have later := others.byteCount_le token member
    rw [Piece.byteCount_append] at later
    have stop : (Token.behind (front ++ gap) characters).span.stop =
        Piece.byteCount (front ++ gap) + Piece.byteCount characters :=
      congrArg _ (Piece.utf8ByteSize_ofList characters)
    rwa [stop]

/-- Tokens are placed behind what is in front of all. -/
theorem position_eq (cut : Cut front tokens rest) :
    ∀ token ∈ tokens, ∃ between, token.position = Position.behind (front ++ between) := by
  induction cut with
  | last isSpace => simp
  | @token front gap characters behind kind tokens isSpace lexeme others ih =>
    refine List.forall_mem_cons.2 ⟨⟨gap, rfl⟩, fun token member => ?_⟩
    obtain ⟨between, placed⟩ := ih token member
    exact ⟨gap ++ characters ++ between, by simpa using placed⟩

/-- No two tokens have one place. -/
theorem nodup_positions (cut : Cut front tokens rest) : (tokens.map Token.position).Nodup := by
  induction cut with
  | last isSpace => exact List.nodup_nil
  | @token front gap characters behind kind tokens isSpace lexeme others ih =>
    refine List.nodup_cons.2 ⟨fun member => ?_, ih⟩
    obtain ⟨token, member, same⟩ := List.mem_map.1 member
    obtain ⟨between, placed⟩ := others.position_eq token member
    obtain ⟨character, others', filled, -⟩ := lexeme.starts
    rw [placed, List.append_assoc] at same
    exact Position.behind_append_ne (front ++ gap) (by simp [filled]) same

/-- Each token fits into the whole text. -/
theorem fits {source : String} (cut : Cut front tokens rest)
    (whole : source.toList = front ++ rest) (earlier : List Token)
    (edge : Fresh earlier front ∨ ∀ character ∈ rest.head?, continuesWord character = false) :
    ∀ token ∈ tokens, token.Fits source (earlier ++ tokens) := by
  induction cut generalizing earlier with
  | last isSpace => simp
  | @token front gap characters behind kind tokens isSpace lexeme others ih =>
    have fresh (run : kind = .run) : Fresh earlier (front ++ gap) := by
      subst run
      exact lexeme.fresh_of_run isSpace edge
    have later := ih (by simpa using whole) (earlier ++ [Token.behind (front ++ gap) characters])
      (lexeme.fresh_or_ends earlier)
    rw [List.append_assoc, List.singleton_append] at later
    refine List.forall_mem_cons.2 ⟨?_, later⟩
    refine Token.fits_behind (by simpa using whole) lexeme fun run => (fresh run).imp_right ?_
    exact fun ⟨closed, member, ends⟩ => ⟨closed, List.mem_append_left _ member, ends⟩

end Cut

/-- Tokens part every text. -/
theorem partition_of_texts (source : String) : Partitions source (tokenize source) := by
  have cut := cut_tokenize source
  refine ⟨cut, cut.pairwise, ?_⟩
  have fits := cut.fits rfl [] (.inl (.inl (by simp)))
  rwa [List.nil_append] at fits

end FormPatch
