import FormPatch.Token.Lexer

/-!
# Offsets and places

Where something starts in a text is counted in bytes and in lines and columns. Both are told from
the characters in front of it. Main statements: the place that is reached character by character is
that place, and the bytes from the end of some characters to the end of further ones cover the
latter.
-/

namespace FormPatch

namespace Position

/-- The place behind some characters: lines are counted by their ends, columns since the last. -/
def behind (front : List Char) : Position :=
  ⟨1 + front.count '\n', 1 + (front.reverse.takeWhile (· != '\n')).length⟩

/-- One more character in front. -/
theorem after_behind (front : List Char) (character : Char) :
    (behind front).after character = behind (front ++ [character]) := by
  unfold after behind
  split
  · next line =>
    subst line
    simp [Nat.add_assoc]
  · next line =>
    simp [line, Nat.add_comm]

/-- More characters in front. -/
theorem afterAll_behind (front characters : List Char) :
    (behind front).afterAll characters = behind (front ++ characters) := by
  induction characters generalizing front with
  | nil => rw [List.append_nil]; rfl
  | cons character characters ih =>
    have first : (behind front).afterAll (character :: characters) =
        ((behind front).after character).afterAll characters := rfl
    rw [first, after_behind, ih, List.append_assoc]
    rfl

/-- Each further character moves the place, to a later line or further on in the line. -/
theorem behind_append_ne (front : List Char) {characters : List Char}
    (filled : characters ≠ []) : behind (front ++ characters) ≠ behind front := by
  intro same
  have line : (front ++ characters).count '\n' = front.count '\n' :=
    Nat.add_left_cancel (congrArg Position.line same)
  have column : ((front ++ characters).reverse.takeWhile (· != '\n')).length =
      (front.reverse.takeWhile (· != '\n')).length :=
    Nat.add_left_cancel (congrArg Position.column same)
  have one : ∀ character ∈ characters.reverse, (character != '\n') = true := by
    intro character member
    have none : characters.count '\n' = 0 := by
      rw [List.count_append] at line
      omega
    refine bne_iff_ne.2 fun ends => List.count_eq_zero.1 none ?_
    exact ends ▸ List.mem_reverse.1 member
  rw [List.reverse_append, List.takeWhile_append_of_pos one, List.length_append,
    List.length_reverse] at column
  exact filled (List.length_eq_zero_iff.1 (by omega))

end Position

namespace Piece

/-- Texts behind each other have the bytes of both. -/
theorem byteCount_append (front behind : List Char) :
    byteCount (front ++ behind) = byteCount front + byteCount behind := by
  induction front with
  | nil => simp [byteCount]
  | cons character front ih => simp [byteCount, ih, Nat.add_assoc]

/-- Characters take the bytes that a text of them has. -/
theorem utf8ByteSize_ofList (characters : List Char) :
    (String.ofList characters).utf8ByteSize = byteCount characters := by
  induction characters with
  | nil => rfl
  | cons character characters ih =>
    rw [← List.singleton_append, String.ofList_append, String.utf8ByteSize_append, ih,
      byteCount_append]
    simp [byteCount]

/-- Whatever has a character takes a byte. -/
theorem byteCount_pos {characters : List Char} (filled : characters ≠ []) :
    0 < byteCount characters := by
  cases characters with
  | nil => exact absurd rfl filled
  | cons character characters => exact Nat.add_pos_left character.utf8Size_pos _

end Piece

namespace Span

open Piece

variable (span : Span)

/-- Nothing is covered in front of a span. -/
theorem slice_front (front rest : List Char) {offset : Nat}
    (before : offset + byteCount front ≤ span.first) :
    span.slice offset (front ++ rest) = span.slice (offset + byteCount front) rest := by
  induction front generalizing offset with
  | nil => rfl
  | cons character front ih =>
    rw [byteCount] at before
    have size := character.utf8Size_pos
    rw [List.cons_append, slice, if_neg (by omega), ih (by omega), byteCount, Nat.add_assoc]

/-- Everything is covered within a span. -/
theorem slice_inside (inside rest : List Char) {offset : Nat} (first : span.first ≤ offset)
    (last : offset + byteCount inside ≤ span.stop) :
    span.slice offset (inside ++ rest) =
      inside ++ span.slice (offset + byteCount inside) rest := by
  induction inside generalizing offset with
  | nil => rfl
  | cons character inside ih =>
    rw [byteCount] at last
    have size := character.utf8Size_pos
    rw [List.cons_append, slice, if_pos (by omega), ih (by omega) (by omega), byteCount,
      Nat.add_assoc, List.cons_append]

/-- Nothing is covered behind a span. -/
theorem slice_behind (rest : List Char) {offset : Nat} (after : span.stop ≤ offset) :
    span.slice offset rest = [] := by
  induction rest generalizing offset with
  | nil => rfl
  | cons character rest ih => rw [slice, if_neg (by omega), ih (by omega)]

/-- A span covers what it is made for. -/
theorem text_of_split {source : String} {front inside behind : List Char}
    (split : source.toList = front ++ (inside ++ behind)) :
    (⟨byteCount front, byteCount front + byteCount inside⟩ : Span).text source =
      String.ofList inside := by
  rw [text, split, slice_front _ _ _ (by simp), slice_inside _ _ _ (by simp) (by simp),
    slice_behind _ _ (by simp), List.append_nil]

end Span

end FormPatch
