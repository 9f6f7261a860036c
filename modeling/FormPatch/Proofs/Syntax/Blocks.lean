import FormPatch.Proofs.Syntax.Braces
import Mathlib.Data.List.Induction

/-!
# Blocks

A block runs from an opening brace to the closing brace that matches it, with balanced braces in
between. A closing brace that matches none is astray: it closes nothing, and later braces match as
if it were not there. Behind some tokens, a depth counts the blocks that they leave open.

Main statements: tokens leave a block open exactly where the depth is positive, a closing brace
matches one of their braces exactly there, and it closes an outermost block exactly where the depth
is one.
-/

namespace FormPatch

/-- Whether each closing brace among some tokens matches an opening one, and none is left open. -/
structure IsBalanced (tokens : List Token) : Prop where
  /-- No start of the tokens closes more braces than it opens. -/
  never : NeverOverclosed tokens
  /-- The tokens close all braces that they open. -/
  whole : openBraces tokens = 0

/-- Whether two braces match, with what stands between them. -/
structure IsBlock (opening : Token) (inside : List Token) (closing : Token) : Prop where
  /-- The first token opens the block. -/
  opens : opening.text = "\x7b"
  /-- The braces within the block match each other. -/
  balanced : IsBalanced inside
  /-- The last token closes the block. -/
  closes : closing.text = "\x7d"

/-- Whether some tokens open a block that they do not close. -/
def LeavesOpen (tokens : List Token) : Prop :=
  ∃ before opening inside, tokens = before ++ opening :: inside ∧ opening.text = "\x7b" ∧
    NeverOverclosed inside

/-- Whether the token behind some tokens closes a block that they open. -/
def ClosesBlock (tokens : List Token) (closing : Token) : Prop :=
  ∃ before opening inside, tokens = before ++ opening :: inside ∧ IsBlock opening inside closing

/-- Whether the token behind some tokens closes a block that they open outside of other blocks. -/
def ClosesOutermost (tokens : List Token) (closing : Token) : Prop :=
  ∃ before opening inside, tokens = before ++ opening :: inside ∧ IsBlock opening inside closing ∧
    ¬LeavesOpen before

/-- The depth behind a token. Where no block is open, a closing brace does not count. -/
def deepen (depth : Nat) (token : Token) : Nat :=
  if token.text = "\x7b" then depth + 1 else if token.text = "\x7d" then depth - 1 else depth

/-- How many blocks some tokens leave open. -/
def depthBehind (tokens : List Token) : Nat := tokens.foldl deepen 0

section Deepen

variable {depth : Nat} {token : Token}

/-- An opening brace leads one block deeper. -/
theorem deepen_opening (opens : token.text = "\x7b") : deepen depth token = depth + 1 := by
  rw [deepen, if_pos opens]

/-- A closing brace leads out of a block. -/
theorem deepen_closing (closes : token.text = "\x7d") : deepen depth token = depth - 1 := by
  have other : token.text ≠ "\x7b" := by
    rw [closes]
    decide
  rw [deepen, if_neg other, if_pos closes]

/-- Tokens that are no braces do not count. -/
theorem deepen_other (opens : token.text ≠ "\x7b") (closes : token.text ≠ "\x7d") :
    deepen depth token = depth := by
  rw [deepen, if_neg opens, if_neg closes]

/-- Unless it is astray, a token changes the depth by its brace. -/
theorem deepen_eq (enough : 0 ≤ (depth : Int) + braceOf token.text) :
    (deepen depth token : Int) = depth + braceOf token.text := by
  by_cases opens : token.text = "\x7b"
  · rw [deepen_opening opens, opens, braceOf_opening]
    omega
  · by_cases closes : token.text = "\x7d"
    · rw [closes, braceOf_closing] at enough
      rw [deepen_closing closes, closes, braceOf_closing]
      omega
    · rw [deepen_other opens closes, braceOf_eq_zero opens closes]
      omega

end Deepen

/-- In front of all tokens no block is open. -/
@[simp] theorem depthBehind_nil : depthBehind [] = 0 := rfl

/-- The depth behind one more token is what that token makes of the depth before it. -/
@[simp] theorem depthBehind_concat (front : List Token) (token : Token) :
    depthBehind (front ++ [token]) = deepen (depthBehind front) token := by
  rw [depthBehind, List.foldl_append]
  rfl

/-- A text in which no start is overclosed opens at least the braces it closes. -/
theorem NeverOverclosed.openBraces_nonneg {tokens : List Token} (never : NeverOverclosed tokens) :
    0 ≤ openBraces tokens := by
  have all := never tokens.length (Nat.le_refl _)
  rwa [List.take_length] at all

/-- The last token may close what is open in front of it. -/
theorem neverOverclosed_concat {front : List Token} {token : Token} :
    NeverOverclosed (front ++ [token]) ↔
      NeverOverclosed front ∧ 0 ≤ openBraces (front ++ [token]) := by
  constructor
  · intro never
    refine ⟨?_, never.openBraces_nonneg⟩
    intro count within
    have longer := never count (by rw [List.length_append]; omega)
    rwa [List.take_append_of_le_length within] at longer
  · rintro ⟨never, all⟩ count within
    by_cases shorter : count ≤ front.length
    · rw [List.take_append_of_le_length shorter]
      exact never count shorter
    · have whole : (front ++ [token]).length ≤ count := by
        rw [List.length_append, List.length_singleton]
        omega
      rwa [List.take_of_length_le whole]

/-- Tokens that never close more braces than they open do so together. -/
theorem NeverOverclosed.append {front behind : List Token} (first : NeverOverclosed front)
    (second : NeverOverclosed behind) : NeverOverclosed (front ++ behind) := by
  induction behind using List.reverseRecOn with
  | nil => rwa [List.append_nil]
  | append_singleton behind token ih =>
    obtain ⟨never, all⟩ := neverOverclosed_concat.1 second
    have opened := first.openBraces_nonneg
    rw [← List.append_assoc, neverOverclosed_concat, List.append_assoc, openBraces_append]
    exact ⟨ih never, by omega⟩

/-- The empty text is balanced. -/
theorem isBalanced_nil : IsBalanced [] where
  never := by decide
  whole := rfl

/-- A token that is no brace leaves balanced tokens balanced. -/
theorem IsBalanced.concat {tokens : List Token} {token : Token} (balanced : IsBalanced tokens)
    (opens : token.text ≠ "\x7b") (closes : token.text ≠ "\x7d") :
    IsBalanced (tokens ++ [token]) := by
  have whole : openBraces (tokens ++ [token]) = 0 := by
    rw [openBraces_append, balanced.whole, openBraces_cons, braceOf_eq_zero opens closes]
    rfl
  exact ⟨neverOverclosed_concat.2 ⟨balanced.never, Int.le_of_eq whole.symm⟩, whole⟩

/-- A block leaves the balanced tokens in front of it balanced. -/
theorem IsBlock.isBalanced {front inside : List Token} {opening closing : Token}
    (block : IsBlock opening inside closing) (balanced : IsBalanced front) :
    IsBalanced (front ++ opening :: inside ++ [closing]) := by
  have opened : openBraces (opening :: inside) = 1 := by
    rw [openBraces_cons, block.opens, braceOf_opening, block.balanced.whole]
    rfl
  have whole : openBraces (front ++ opening :: inside ++ [closing]) = 0 := by
    rw [openBraces_append, openBraces_append, balanced.whole, opened, openBraces_cons,
      block.closes, braceOf_closing]
    rfl
  have first : NeverOverclosed ([] ++ [opening]) :=
    neverOverclosed_concat.2 ⟨isBalanced_nil.never, by simp [block.opens, braceOf_opening]⟩
  have never : NeverOverclosed (front ++ opening :: inside) :=
    balanced.never.append (first.append block.balanced.never)
  exact ⟨neverOverclosed_concat.2 ⟨never, Int.le_of_eq whole.symm⟩, whole⟩

/-- Tokens that never close more braces than they open deepen a text by those they leave open. -/
theorem depthBehind_append (front : List Token) {behind : List Token}
    (never : NeverOverclosed behind) :
    (depthBehind (front ++ behind) : Int) = depthBehind front + openBraces behind := by
  induction behind using List.reverseRecOn with
  | nil => simp
  | append_singleton behind token ih =>
    obtain ⟨before, all⟩ := neverOverclosed_concat.1 never
    have same := ih before
    rw [openBraces_append, openBraces_cons, openBraces_nil, Int.add_zero] at all ⊢
    rw [← List.append_assoc, depthBehind_concat, deepen_eq (by omega)]
    omega

/-- Behind an opening brace, the depth is one more than in front of it, and more by what is opened
behind it. -/
theorem depthBehind_opening (before : List Token) {inside : List Token} {opening : Token}
    (opens : opening.text = "\x7b") (never : NeverOverclosed inside) :
    (depthBehind (before ++ opening :: inside) : Int) =
      depthBehind before + 1 + openBraces inside := by
  have deeper := depthBehind_append (before ++ [opening]) never
  rw [depthBehind_concat, deepen_opening opens, List.append_assoc] at deeper
  exact deeper

/-- Where the depth is positive, it comes from an opening brace with balanced tokens behind it. -/
theorem exists_opening {tokens : List Token} {depth : Nat} (deep : depthBehind tokens = depth + 1) :
    ∃ before opening inside, tokens = before ++ opening :: inside ∧ opening.text = "\x7b" ∧
      IsBalanced inside ∧ depthBehind before = depth := by
  induction measured : tokens.length using Nat.strongRecOn generalizing tokens depth with
  | ind length ih =>
    rcases List.eq_nil_or_concat tokens with empty | ⟨front, token, joined⟩
    · rw [empty, depthBehind_nil] at deep
      omega
    · rw [List.concat_eq_append] at joined
      subst joined
      rw [List.length_append, List.length_singleton] at measured
      rw [depthBehind_concat] at deep
      by_cases opens : token.text = "\x7b"
      · rw [deepen_opening opens] at deep
        exact ⟨front, token, [], rfl, opens, isBalanced_nil, by omega⟩
      · by_cases closes : token.text = "\x7d"
        · -- The brace closes the innermost block; the one around it is open in front of that block.
          rw [deepen_closing closes] at deep
          have deeper : depthBehind front = depth + 1 + 1 := by omega
          obtain ⟨middle, opening, inside, rfl, starts, balanced, left⟩ :=
            ih front.length (by omega) deeper rfl
          rw [List.length_append, List.length_cons] at measured
          obtain ⟨before, outer, around, rfl, outerOpens, outerBalanced, least⟩ :=
            ih middle.length (by omega) left rfl
          have block : IsBlock opening inside token := ⟨starts, balanced, closes⟩
          refine ⟨before, outer, around ++ opening :: inside ++ [token], ?_, outerOpens,
            block.isBalanced outerBalanced, least⟩
          simp only [List.append_assoc, List.cons_append]
        · rw [deepen_other opens closes] at deep
          obtain ⟨before, opening, inside, rfl, starts, balanced, least⟩ :=
            ih front.length (by omega) deep rfl
          refine ⟨before, opening, inside ++ [token], ?_, starts, balanced.concat opens closes,
            least⟩
          rw [List.append_assoc, List.cons_append]

/-- Tokens leave a block open exactly where the depth is positive. -/
theorem leavesOpen_iff {tokens : List Token} : LeavesOpen tokens ↔ 0 < depthBehind tokens := by
  constructor
  · rintro ⟨before, opening, inside, rfl, opens, never⟩
    have deeper := depthBehind_opening before opens never
    have opened := never.openBraces_nonneg
    omega
  · intro positive
    have deep : depthBehind tokens = depthBehind tokens - 1 + 1 := by omega
    obtain ⟨before, opening, inside, split, opens, balanced, _⟩ := exists_opening deep
    exact ⟨before, opening, inside, split, opens, balanced.never⟩

section Closing

variable {tokens : List Token} {closing : Token}

/-- A closing brace closes a block exactly where the depth is positive. -/
theorem closesBlock_iff (closes : closing.text = "\x7d") :
    ClosesBlock tokens closing ↔ 0 < depthBehind tokens := by
  constructor
  · rintro ⟨before, opening, inside, split, block⟩
    exact leavesOpen_iff.1 ⟨before, opening, inside, split, block.opens, block.balanced.never⟩
  · intro positive
    have deep : depthBehind tokens = depthBehind tokens - 1 + 1 := by omega
    obtain ⟨before, opening, inside, split, opens, balanced, _⟩ := exists_opening deep
    exact ⟨before, opening, inside, split, opens, balanced, closes⟩

/-- A token closes an outermost block exactly when it is a closing brace where the depth is one. -/
theorem closesOutermost_iff :
    ClosesOutermost tokens closing ↔ closing.text = "\x7d" ∧ depthBehind tokens = 1 := by
  constructor
  · rintro ⟨before, opening, inside, rfl, block, outside⟩
    have deeper := depthBehind_opening before block.opens block.balanced.never
    rw [leavesOpen_iff] at outside
    rw [block.balanced.whole] at deeper
    exact ⟨block.closes, by omega⟩
  · rintro ⟨closes, deep⟩
    obtain ⟨before, opening, inside, split, opens, balanced, least⟩ := exists_opening deep
    refine ⟨before, opening, inside, split, ⟨opens, balanced, closes⟩, ?_⟩
    rw [leavesOpen_iff, least]
    exact Nat.lt_irrefl 0

end Closing

end FormPatch
