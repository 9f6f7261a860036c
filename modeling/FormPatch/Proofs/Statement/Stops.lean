import FormPatch.Proofs.Syntax.Blocks
import FormPatch.Statement.Recovery
import Mathlib.Order.Bounds.Basic

/-!
# Where recovery stops

Recovery is a loop that knows the next token and the depth of the blocks that it has skipped into.
Its turns are followed here one by one, and compared with the places at which the rest of a failed
statement may end: these are told by matching braces and know no depth.

Main statement: recovery ends, in at most one turn more than the tokens that it takes, and it ends
at the first place where a failed statement may end.
-/

namespace FormPatch

open Syntax

/-- Where the rest of a failed statement may end: behind the tokens that were skipped, and in front
of those that are left. -/
inductive Stops (inBlock : Bool) : List Token → List Token → Prop
  /-- At the end of the text. -/
  | ended (skipped : List Token) : Stops inBlock skipped []
  /-- In front of the brace that closes the block around the statement. -/
  | enclosed {skipped later : List Token} {closing : Token} (inside : inBlock = true)
    (closes : closing.text = "\x7d") (around : ¬ClosesBlock skipped closing) :
    Stops inBlock skipped (closing :: later)
  /-- Behind a semicolon outside of the blocks that were skipped into. -/
  | semicolon {front later : List Token} {stop : Token} (stops : stop.text = ";")
    (outside : ¬LeavesOpen front) : Stops inBlock (front ++ [stop]) later
  /-- Behind an outermost block, unless `else` follows. -/
  | block {front later : List Token} {closing : Token} (outermost : ClosesOutermost front closing)
    (apart : ¬StartsWith "else" later) : Stops inBlock (front ++ [closing]) later

/-- Whether a place is an end because of what follows it, by the depth there. -/
def EndsBefore (inBlock : Bool) (depth : Nat) (rest : List Token) : Prop :=
  rest = [] ∨ inBlock = true ∧ depth = 0 ∧ StartsWith "\x7d" rest

/-- Whether a place is an end because of the token in front of it, by the depth in front of that
token. -/
def EndsBehind (depth : Nat) (token : Token) (later : List Token) : Prop :=
  token.text = ";" ∧ depth = 0 ∨ token.text = "\x7d" ∧ depth = 1 ∧ ¬StartsWith "else" later

/-- A text starts with the word of its first token. -/
theorem startsWith_cons {word : String} {token : Token} {tokens : List Token} :
    StartsWith word (token :: tokens) ↔ token.text = word := by
  simp [StartsWith]

/-- Skipping ends before a token only if it closes the block that is being read. -/
theorem endsBefore_cons {inBlock : Bool} {depth : Nat} {token : Token} {rest : List Token} :
    EndsBefore inBlock depth (token :: rest) ↔
      inBlock = true ∧ depth = 0 ∧ token.text = "\x7d" := by
  simp [EndsBefore, startsWith_cons]

section Places

variable {inBlock : Bool} {front rest : List Token} {token : Token}

/-- What follows a place makes it an end exactly when the depth there says so. -/
theorem EndsBefore.stops (ends : EndsBefore inBlock (depthBehind front) rest) :
    Stops inBlock front rest := by
  cases rest with
  | nil => exact .ended front
  | cons closing later =>
    obtain ⟨inside, outside, closes⟩ := endsBefore_cons.1 ends
    refine .enclosed inside closes ?_
    rw [closesBlock_iff closes]
    omega

/-- A token makes the place behind it an end exactly when the depth in front of it says so. -/
theorem EndsBehind.stops (ends : EndsBehind (depthBehind front) token rest) :
    Stops inBlock (front ++ [token]) rest := by
  rcases ends with ⟨stops, outside⟩ | ⟨closes, deep, apart⟩
  · refine .semicolon stops ?_
    rw [leavesOpen_iff]
    omega
  · exact .block (closesOutermost_iff.2 ⟨closes, deep⟩) apart

/-- A place is an end because of what follows it or because of the token in front of it. -/
theorem Stops.cases (stops : Stops inBlock front rest) :
    EndsBefore inBlock (depthBehind front) rest ∨
      ∃ before last, front = before ++ [last] ∧ EndsBehind (depthBehind before) last rest := by
  cases stops with
  | ended => exact .inl (.inl rfl)
  | enclosed inside closes around =>
    rw [closesBlock_iff closes] at around
    exact .inl (endsBefore_cons.2 ⟨inside, by omega, closes⟩)
  | @semicolon before _ stop stops outside =>
    rw [leavesOpen_iff] at outside
    exact .inr ⟨before, stop, rfl, .inl ⟨stops, by omega⟩⟩
  | @block before _ closing outermost apart =>
    obtain ⟨closes, deep⟩ := closesOutermost_iff.1 outermost
    exact .inr ⟨before, closing, rfl, .inr ⟨closes, deep, apart⟩⟩

/-- Before any token is skipped, only what follows can be an end. -/
theorem stops_nil : Stops inBlock [] rest ↔ EndsBefore inBlock 0 rest := by
  constructor
  · intro stops
    rcases stops.cases with ends | ⟨before, last, joined, _⟩
    · exact ends
    · simp at joined
  · intro ends
    have here : EndsBefore inBlock (depthBehind []) rest := ends
    exact here.stops

/-- Behind a token, what follows or the token can be an end. -/
theorem stops_concat :
    Stops inBlock (front ++ [token]) rest ↔
      EndsBefore inBlock (depthBehind (front ++ [token])) rest ∨
        EndsBehind (depthBehind front) token rest := by
  constructor
  · intro stops
    rcases stops.cases with ends | ⟨before, last, joined, ends⟩
    · exact .inl ends
    · obtain ⟨rfl, same⟩ := List.append_inj' joined rfl
      cases same
      exact .inr ends
  · rintro (ends | ends)
    · exact ends.stops
    · exact ends.stops

end Places

namespace Syntax.Cursor

/-- What a turn of skipping comes to. -/
inductive Turn where
  /-- Skipping ends. -/
  | stop (cursor : Cursor)
  /-- Skipping goes on, with some blocks open. -/
  | again (depth : Nat) (cursor : Cursor)

/-- One turn of skipping, with some blocks open: the next token is looked at, and it is taken unless
skipping ends in front of it. -/
def turn (inBlock : Bool) (depth : Nat) (cursor : Cursor) : Turn :=
  if cursor.rest = [] then .stop cursor
  else if cursor.word = "\x7d" ∧ depth = 0 ∧ inBlock = true then .stop cursor.look
  else if cursor.word = "\x7d" ∧ 0 < depth then
    if depth = 1 then
      if cursor.take.word = "else" then .again 0 cursor.take.look else .stop cursor.take.look
    else .again (depth - 1) cursor.take
  else if cursor.word = "\x7b" then .again (depth + 1) cursor.take
  else if cursor.word = ";" ∧ depth = 0 then .stop cursor.take
  else .again depth cursor.take

/-- Skips in at most some number of turns; answers nothing if these do not suffice. -/
def skipIn (inBlock : Bool) : Nat → Nat → Cursor → Option Cursor
  | 0, _, _ => none
  | turns + 1, depth, cursor =>
    match turn inBlock depth cursor with
    | .stop after => some after
    | .again depth next => skipIn inBlock turns depth next

/-- The next word is an else exactly when the text starts with one. -/
theorem word_eq_else {cursor : Cursor} : cursor.word = "else" ↔ StartsWith "else" cursor.rest := by
  obtain ⟨rest, shown⟩ := cursor
  cases rest with
  | nil => simp [word, StartsWith]
  | cons token rest => simp [word, startsWith_cons]

/-- What a turn may come to: it ends in front of a token, it takes the token and ends behind it, or
it takes the token and goes on. -/
inductive IsTurn (inBlock : Bool) (depth : Nat) (cursor : Cursor) : Turn → Prop
  /-- What follows makes the place an end. -/
  | before {after : Cursor} (kept : after.rest = cursor.rest)
    (ends : EndsBefore inBlock depth cursor.rest) : IsTurn inBlock depth cursor (.stop after)
  /-- The token makes the place behind it an end. -/
  | behind {token : Token} {after : Cursor} (taken : cursor.rest = token :: after.rest)
    (goes : ¬EndsBefore inBlock depth cursor.rest) (ends : EndsBehind depth token after.rest) :
    IsTurn inBlock depth cursor (.stop after)
  /-- There is no end yet. -/
  | again {token : Token} {deeper : Nat} {next : Cursor} (taken : cursor.rest = token :: next.rest)
    (goes : ¬EndsBefore inBlock depth cursor.rest) (on : ¬EndsBehind depth token next.rest)
    (deepened : deepen depth token = deeper) : IsTurn inBlock depth cursor (.again deeper next)

section Turn

variable {inBlock : Bool} {depth : Nat} {cursor : Cursor}

/-- At the end of the text skipping stops. -/
theorem turn_of_end (ended : cursor.rest = []) : turn inBlock depth cursor = .stop cursor :=
  if_pos ended

/-- Where no block was skipped into, a closing brace is left within a block and taken elsewhere. -/
theorem turn_closing_zero (here : cursor.word = "\x7d") :
    turn inBlock 0 cursor =
      if inBlock = true then .stop cursor.look else .again 0 cursor.take := by
  have more := rest_ne_nil_of_word (by decide) here
  simp [turn, more, here]

/-- Behind the brace of an outermost block the next token is looked at. -/
theorem turn_closing_one (here : cursor.word = "\x7d") :
    turn inBlock 1 cursor =
      if cursor.take.word = "else" then .again 0 cursor.take.look else .stop cursor.take.look := by
  have more := rest_ne_nil_of_word (by decide) here
  simp [turn, more, here]

/-- A brace that closes one of several open blocks is skipped. -/
theorem turn_closing_add_two (here : cursor.word = "\x7d") :
    turn inBlock (depth + 2) cursor = .again (depth + 1) cursor.take := by
  have more := rest_ne_nil_of_word (by decide) here
  simp [turn, more, here]

/-- An opening brace is skipped with its block. -/
theorem turn_opening (here : cursor.word = "\x7b") :
    turn inBlock depth cursor = .again (depth + 1) cursor.take := by
  have more := rest_ne_nil_of_word (by decide) here
  simp [turn, more, here]

/-- A semicolon outside of blocks is the last token that is skipped. -/
theorem turn_semicolon (here : cursor.word = ";") : turn inBlock 0 cursor = .stop cursor.take := by
  have more := rest_ne_nil_of_word (by decide) here
  simp [turn, more, here]

/-- Any other token is skipped. -/
theorem turn_other (more : cursor.rest ≠ []) (closes : cursor.word ≠ "\x7d")
    (opens : cursor.word ≠ "\x7b") (stops : ¬(cursor.word = ";" ∧ depth = 0)) :
    turn inBlock depth cursor = .again depth cursor.take := by
  simp [turn, more, closes, opens, stops]

/-- The token that is taken is the one whose text is next. -/
theorem exists_next (more : cursor.rest ≠ []) :
    ∃ token, cursor.rest = token :: cursor.take.rest ∧ cursor.word = token.text := by
  obtain ⟨rest, shown⟩ := cursor
  cases rest with
  | nil => exact absurd rfl more
  | cons token rest => exact ⟨token, rfl, rfl⟩

/-- A closing brace ends skipping in front of it, behind it or not at all. -/
theorem isTurn_closing {token : Token} (taken : cursor.rest = token :: cursor.take.rest)
    (here : cursor.word = "\x7d") (closes : token.text = "\x7d") :
    IsTurn inBlock depth cursor (turn inBlock depth cursor) := by
  match depth with
  | 0 =>
    rw [turn_closing_zero here]
    cases inBlock with
    | true =>
      refine .before cursor.rest_look ?_
      rw [taken]
      exact endsBefore_cons.2 ⟨rfl, rfl, closes⟩
    | false =>
      have goes : ¬EndsBefore false 0 cursor.rest := by simp [taken, endsBefore_cons]
      have on : ¬EndsBehind 0 token cursor.take.rest := by simp [EndsBehind, closes]
      exact .again taken goes on (deepen_closing closes)
  | 1 =>
    have goes : ¬EndsBefore inBlock 1 cursor.rest := by simp [taken, endsBefore_cons]
    rw [← cursor.take.rest_look] at taken
    rw [turn_closing_one here]
    split
    · next follows =>
      have on : ¬EndsBehind 1 token cursor.take.look.rest := by
        rw [word_eq_else] at follows
        simp [EndsBehind, closes, follows]
      exact .again taken goes on (deepen_closing closes)
    · next apart =>
      rw [word_eq_else, ← rest_look] at apart
      exact .behind taken goes (.inr ⟨closes, rfl, apart⟩)
  | depth + 2 =>
    rw [turn_closing_add_two here]
    have goes : ¬EndsBefore inBlock (depth + 2) cursor.rest := by simp [taken, endsBefore_cons]
    have on : ¬EndsBehind (depth + 2) token cursor.take.rest := by simp [EndsBehind, closes]
    exact .again taken goes on (deepen_closing closes)

/-- Every turn comes to one of these: where there is an end, skipping ends. -/
theorem isTurn_turn (inBlock : Bool) (depth : Nat) (cursor : Cursor) :
    IsTurn inBlock depth cursor (turn inBlock depth cursor) := by
  by_cases ended : cursor.rest = []
  · rw [turn_of_end ended]
    exact .before rfl (.inl ended)
  · obtain ⟨token, taken, here⟩ := exists_next ended
    by_cases closes : token.text = "\x7d"
    · exact isTurn_closing taken (here.trans closes) closes
    · have goes : ¬EndsBefore inBlock depth cursor.rest := by
        simp [taken, endsBefore_cons, closes]
      by_cases opens : token.text = "\x7b"
      · have on : ¬EndsBehind depth token cursor.take.rest := by simp [EndsBehind, opens]
        rw [turn_opening (here.trans opens)]
        exact .again taken goes on (deepen_opening opens)
      · by_cases stops : token.text = ";" ∧ depth = 0
        · obtain ⟨stops, rfl⟩ := stops
          rw [turn_semicolon (here.trans stops)]
          exact .behind taken goes (.inl ⟨stops, rfl⟩)
        · have on : ¬EndsBehind depth token cursor.take.rest := by
            simp [EndsBehind, closes, stops]
          rw [turn_other ended (here ▸ closes) (here ▸ opens) (here ▸ stops)]
          exact .again taken goes on (deepen_other opens closes)

end Turn

/-- Looking at the next token makes no difference to skipping. -/
theorem skipFrom_look (inBlock : Bool) (depth : Nat) (cursor : Cursor) :
    skipFrom inBlock depth cursor.look.rest cursor.look.shown =
      skipFrom inBlock depth cursor.rest cursor.shown := by
  obtain ⟨rest, shown⟩ := cursor
  cases rest with
  | nil => rfl
  | cons token rest => cases depth <;> rfl

/-- Where skipping ends when it goes on from what a turn comes to. -/
def Turn.finish (inBlock : Bool) : Turn → Cursor
  | stop cursor => cursor
  | again depth cursor => skipFrom inBlock depth cursor.rest cursor.shown

/-- Recovery is a turn and then what is left of recovery. -/
theorem skipFrom_eq_finish (inBlock : Bool) (depth : Nat) (cursor : Cursor) :
    skipFrom inBlock depth cursor.rest cursor.shown =
      (turn inBlock depth cursor).finish inBlock := by
  obtain ⟨rest, shown⟩ := cursor
  fun_cases skipFrom inBlock depth rest shown with
  | case1 =>
    rw [turn_of_end rfl]
    rfl
  | case2 token rest shown stops =>
    have here : (Cursor.mk (token :: rest) shown).word = "\x7d" := stops.1
    rw [turn_closing_zero here, if_pos stops.2]
    rfl
  | case3 token rest shown inside opens =>
    have here : (Cursor.mk (token :: rest) shown).word = "\x7b" := opens
    rw [turn_opening here]
    rfl
  | case4 token rest shown inside opens stops =>
    have here : (Cursor.mk (token :: rest) shown).word = ";" := stops
    rw [turn_semicolon here]
    rfl
  | case5 token rest shown inside opens stops =>
    by_cases closes : (Cursor.mk (token :: rest) shown).word = "\x7d"
    · rw [turn_closing_zero closes, if_neg fun within => inside ⟨closes, within⟩]
      rfl
    · rw [turn_other (List.cons_ne_nil token rest) closes opens fun ends => stops ends.1]
      rfl
  | case6 depth token rest shown closes after ends =>
    obtain ⟨rfl, other⟩ := ends
    have here : (Cursor.mk (token :: rest) shown).word = "\x7d" := closes
    have apart : (Cursor.mk (token :: rest) shown).take.word ≠ "else" := other
    rw [turn_closing_one here, if_neg apart]
    rfl
  | case7 depth token rest shown closes after goes =>
    have here : (Cursor.mk (token :: rest) shown).word = "\x7d" := closes
    cases depth with
    | zero =>
      have chained : after.word = "else" := by simpa using goes
      have follows : (Cursor.mk (token :: rest) shown).take.word = "else" := chained
      -- The loop has looked at `else` already, which the recursion does in its next turn.
      rw [turn_closing_one here, if_pos follows]
      exact (skipFrom_look inBlock 0 after).symm
    | succ depth =>
      rw [turn_closing_add_two here]
      rfl
  | case8 depth token rest shown closes opens =>
    have here : (Cursor.mk (token :: rest) shown).word = "\x7b" := opens
    rw [turn_opening here]
    rfl
  | case9 depth token rest shown closes opens =>
    have other : (Cursor.mk (token :: rest) shown).word ≠ "\x7d" := closes
    rw [turn_other (List.cons_ne_nil token rest) other opens fun ends => by omega]
    rfl

/-- Skipping that ends within some turns ends where recovery does. -/
theorem skipFrom_of_skipIn {inBlock : Bool} {turns depth : Nat} {cursor after : Cursor}
    (ended : skipIn inBlock turns depth cursor = some after) :
    skipFrom inBlock depth cursor.rest cursor.shown = after := by
  induction turns generalizing depth cursor with
  | zero => cases ended
  | succ turns ih =>
    rw [skipFrom_eq_finish]
    rw [skipIn] at ended
    cases turned : turn inBlock depth cursor with
    | stop last =>
      rw [turned] at ended
      exact Option.some.inj ended
    | again deeper next =>
      rw [turned] at ended
      exact ih ended

end Syntax.Cursor

/-- Whether an end comes behind some of the tokens that are left, and none comes earlier. -/
def StopsFirst (inBlock : Bool) (skipped tokens : List Token) (count : Nat) : Prop :=
  IsLeast {count | Stops inBlock (skipped ++ tokens.take count) (tokens.drop count)} count

section First

variable {inBlock : Bool} {skipped rest : List Token} {token : Token} {count : Nat}

/-- An end that is reached is the first one. -/
theorem StopsFirst.here {tokens : List Token} (stops : Stops inBlock skipped tokens) :
    StopsFirst inBlock skipped tokens 0 := by
  refine ⟨?_, fun _ _ => Nat.zero_le _⟩
  simpa using stops

/-- Where there is no end in front of a token, the first one is the first one behind it. -/
theorem StopsFirst.cons (goes : ¬Stops inBlock skipped (token :: rest))
    (first : StopsFirst inBlock (skipped ++ [token]) rest count) :
    StopsFirst inBlock skipped (token :: rest) (count + 1) := by
  obtain ⟨stops, least⟩ := first
  constructor
  · simpa using stops
  · intro other ends
    cases other with
    | zero => exact absurd (by simpa using ends) goes
    | succ other =>
      have later := least (by simpa using ends : other ∈ _)
      omega

end First

namespace Syntax.Cursor

/-- From a place that is no end because of the token in front of it, skipping ends at the first
end. -/
theorem skipIn_stopsFirst (inBlock : Bool) (skipped : List Token) (cursor : Cursor)
    (fresh : Stops inBlock skipped cursor.rest →
      EndsBefore inBlock (depthBehind skipped) cursor.rest) :
    ∃ count ≤ cursor.rest.length, ∃ after,
      skipIn inBlock (count + 1) (depthBehind skipped) cursor = some after ∧
        after.rest = cursor.rest.drop count ∧ StopsFirst inBlock skipped cursor.rest count := by
  induction measured : cursor.rest.length using Nat.strongRecOn generalizing skipped cursor with
  | ind length ih =>
    have turned := isTurn_turn inBlock (depthBehind skipped) cursor
    generalize ran : turn inBlock (depthBehind skipped) cursor = came at turned
    cases turned with
    | @before after kept ends =>
      refine ⟨0, Nat.zero_le _, after, ?_, kept, .here ends.stops⟩
      rw [skipIn, ran]
    | @behind token after taken goes ends =>
      have on : ¬Stops inBlock skipped cursor.rest := fun stops => goes (fresh stops)
      rw [taken] at on measured ⊢
      refine ⟨1, by simp [← measured], after, ?_, rfl, .cons on (.here ends.stops)⟩
      rw [skipIn, ran]
    | @again token deeper next taken goes on deepened =>
      have none : ¬Stops inBlock skipped cursor.rest := fun stops => goes (fresh stops)
      rw [taken] at none measured ⊢
      have shorter : next.rest.length < length := by simp [← measured]
      -- The token has not ended skipping, so only what follows it can.
      have behind : Stops inBlock (skipped ++ [token]) next.rest →
          EndsBefore inBlock (depthBehind (skipped ++ [token])) next.rest :=
        fun stops => (stops_concat.1 stops).resolve_right on
      obtain ⟨count, within, after, ended, left, first⟩ :=
        ih next.rest.length shorter (skipped ++ [token]) next behind rfl
      refine ⟨count + 1, by omega, after, ?_, left, .cons none first⟩
      rw [depthBehind_concat, deepened] at ended
      rw [skipIn, ran]
      exact ended

end Syntax.Cursor

/-- Wherever a statement has failed, recovery ends in at most one turn more than the tokens that it
takes, and it takes the fewest tokens behind which the rest of the statement may end. -/
theorem stops_of_recoveries (inBlock : Bool) (cursor : Cursor) :
    ∃ count ≤ cursor.rest.length,
      Cursor.skipIn inBlock (count + 1) 0 cursor = some (cursor.recover inBlock) ∧
        (cursor.recover inBlock).rest = cursor.rest.drop count ∧
        IsLeast {count | Stops inBlock (cursor.rest.take count) (cursor.rest.drop count)}
          count := by
  obtain ⟨count, within, after, ended, left, first⟩ :=
    Cursor.skipIn_stopsFirst inBlock [] cursor stops_nil.1
  have recovered : cursor.recover inBlock = after := Cursor.skipFrom_of_skipIn ended
  rw [recovered]
  exact ⟨count, within, ended, left, first⟩

/-- A chain is skipped with its last block, and what follows it in the same block is left. -/
example :
    let words := ["\x7b", "a", ";", "\x7d", "else", "\x7b", "b", ";", "\x7d", "c", ";", "\x7d"]
    let chain := words.map fun word => (⟨word, 0, Position.start⟩ : Token)
    ((Cursor.ofTokens chain).recover true).rest.map Token.text = ["c", ";", "\x7d"] := by
  decide

end FormPatch
