/-!
# Tokens

A token is a piece of source text with the place where it starts. Tokens have no kind: what a
token means follows from its text and from the place in the grammar where it is met.
-/

namespace FormPatch

/-- A place in a text; lines and columns count from one, and columns count characters. -/
structure Position where
  /-- The line. -/
  line : Nat
  /-- The column. -/
  column : Nat
deriving DecidableEq, Repr

namespace Position

/-- Where a text begins. -/
def start : Position := ⟨1, 1⟩

instance : Inhabited Position := ⟨start⟩

/-- The place after one character. -/
def after (here : Position) (character : Char) : Position :=
  if character = '\n' then ⟨here.line + 1, 1⟩ else ⟨here.line, here.column + 1⟩

/-- The place after a run of characters. -/
def afterAll (here : Position) (characters : List Char) : Position :=
  characters.foldl after here

end Position

/-- The bytes of a text from one offset up to another. -/
structure Span where
  /-- Offset of the first byte. -/
  first : Nat
  /-- Offset past the last byte. -/
  stop : Nat
deriving DecidableEq, Repr

namespace Span

/-- The number of bytes. -/
def length (span : Span) : Nat := span.stop - span.first

/-- Whether the span covers nothing. -/
def isEmpty (span : Span) : Bool := span.first == span.stop

/-- The characters that start within the span, in a text whose first byte has the given offset. -/
def slice (span : Span) : Nat → List Char → List Char
  | _, [] => []
  | offset, character :: rest =>
    let next := span.slice (offset + character.utf8Size) rest
    if span.first ≤ offset ∧ offset < span.stop then character :: next else next

/-- The part of a text that the span covers. -/
def text (span : Span) (source : String) : String :=
  String.ofList (span.slice 0 source.toList)

end Span

/-- A piece of source text and where it starts. -/
structure Token where
  /-- The text; a string literal keeps its quotes. -/
  text : String
  /-- Bytes before the token. -/
  offset : Nat
  /-- The place of the first character. -/
  position : Position
deriving DecidableEq, Repr

namespace Token

/-- The bytes that the token covers. -/
def span (token : Token) : Span :=
  ⟨token.offset, token.offset + token.text.utf8ByteSize⟩

/-- Whether a text opens a string literal. -/
def opensString (text : String) : Bool :=
  text.toList.head? == some '"'

/-- The text between the quotes of a string literal that has both. -/
def unquote? (text : String) : Option String :=
  match text.toList with
  | '"' :: rest =>
    if rest.getLast? = some '"' then some (String.ofList rest.dropLast) else none
  | _ => none

/-- Whether the token is a string literal, closed or not. -/
def isString (token : Token) : Bool := opensString token.text

/-- Whether the token is a string literal with both quotes. -/
def isClosedString (token : Token) : Bool := (unquote? token.text).isSome

end Token

end FormPatch
