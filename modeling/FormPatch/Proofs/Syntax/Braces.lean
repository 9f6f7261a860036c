import FormPatch.Proofs.Syntax.Branches

/-!
# Braces

How many more braces a text opens than it closes. A reader keeps braces when each value that it
answers stands for as many opened as closed braces. The readers of values keep braces: no value is
written with a brace outside quotes.
-/

namespace FormPatch

open Syntax

/-- What a word adds to the number of open braces. -/
def braceOf (word : String) : Int :=
  if word = "\x7b" then 1 else if word = "\x7d" then -1 else 0

/-- How many more braces some tokens open than they close. -/
def openBraces : List Token → Int
  | [] => 0
  | token :: tokens => braceOf token.text + openBraces tokens

/-- The empty text opens no brace. -/
@[simp] theorem openBraces_nil : openBraces [] = 0 := rfl

/-- A token adds what its word opens. -/
@[simp] theorem openBraces_cons (token : Token) (tokens : List Token) :
    openBraces (token :: tokens) = braceOf token.text + openBraces tokens :=
  rfl

/-- Texts behind each other open what both do. -/
@[simp] theorem openBraces_append (front behind : List Token) :
    openBraces (front ++ behind) = openBraces front + openBraces behind := by
  induction front with
  | nil => rw [List.nil_append, openBraces_nil, Int.zero_add]
  | cons token front ih =>
    rw [List.cons_append, openBraces_cons, openBraces_cons, ih, Int.add_assoc]

/-- Whether no start of a text closes more braces than it opens. -/
def NeverOverclosed (tokens : List Token) : Prop :=
  ∀ count ≤ tokens.length, 0 ≤ openBraces (tokens.take count)

instance (tokens : List Token) : Decidable (NeverOverclosed tokens) :=
  inferInstanceAs (Decidable (∀ count ≤ tokens.length, _))

/-- An opening brace opens one. -/
theorem braceOf_opening : braceOf "\x7b" = 1 := by decide

/-- A closing brace closes one. -/
theorem braceOf_closing : braceOf "\x7d" = -1 := by decide

/-- Other words do not count. -/
theorem braceOf_eq_zero {word : String} (opens : word ≠ "\x7b") (closes : word ≠ "\x7d") :
    braceOf word = 0 := by
  rw [braceOf, if_neg opens, if_neg closes]

/-- Taking a token moves its brace to the front. -/
theorem openBraces_take (cursor : Cursor) :
    openBraces cursor.rest = braceOf cursor.word + openBraces cursor.take.rest := by
  obtain ⟨rest, shown⟩ := cursor
  cases rest with
  | nil => rfl
  | cons token rest => exact openBraces_cons token rest

namespace Syntax.Reader

variable {α β : Type}

/-- A reader whose values stand for as many opened as closed braces. -/
def KeepsBraces (reader : Reader α) : Prop :=
  ∀ cursor value after, reader.run cursor = .read value after →
    openBraces cursor.rest = openBraces after.rest

/-- What answers nothing keeps braces. -/
theorem Refuses.keepsBraces {reader : Reader α} (refuses : reader.Refuses) : reader.KeepsBraces :=
  fun cursor value after ran => absurd ran (refuses cursor value after)

/-- Answering at once takes no brace. -/
theorem keepsBraces_pure (value : α) : (pure value : Reader α).KeepsBraces := by
  intro cursor found after ran
  obtain ⟨_, rfl⟩ := pure_eq_read.1 ran
  rfl

/-- A condition that is required takes no brace. -/
theorem keepsBraces_require (condition : Bool) (fault : Fault) :
    (require condition fault).KeepsBraces := by
  intro cursor value after ran
  obtain ⟨_, rfl⟩ := require_eq_read.1 ran
  rfl

/-- Readers that keep braces one after the other keep them together. -/
theorem KeepsBraces.bind {reader : Reader α} {next : α → Reader β} (first : reader.KeepsBraces)
    (second : ∀ value, (next value).KeepsBraces) : (reader >>= next).KeepsBraces := by
  intro cursor value after ran
  obtain ⟨found, middle, head, tail⟩ := bind_eq_read.1 ran
  rw [first cursor found middle head, second found middle value after tail]

/-- A token may be any word when no brace leads to a value. -/
theorem keepsBraces_next_bind {use : String → Reader α} (keeps : ∀ word, (use word).KeepsBraces)
    (opening : (use "\x7b").Refuses) (closing : (use "\x7d").Refuses) :
    (next >>= use).KeepsBraces := by
  intro cursor value after ran
  obtain ⟨word, middle, head, tail⟩ := bind_eq_read.1 ran
  obtain ⟨rfl, rfl⟩ := next_eq_read.1 head
  have opens : cursor.word ≠ "\x7b" := by
    intro same
    rw [same] at tail
    exact opening _ _ _ tail
  have closes : cursor.word ≠ "\x7d" := by
    intro same
    rw [same] at tail
    exact closing _ _ _ tail
  rw [openBraces_take, braceOf_eq_zero opens closes, Int.zero_add]
  exact keeps _ _ _ _ tail

/-- Expecting a word that is no brace takes no brace. -/
theorem keepsBraces_expect {mark : String} (opens : mark ≠ "\x7b") (closes : mark ≠ "\x7d") :
    (expect mark).KeepsBraces := by
  intro cursor value after ran
  obtain ⟨rfl, rfl⟩ := expect_eq_read.1 ran
  rw [openBraces_take, braceOf_eq_zero opens closes, Int.zero_add]

/-- Accepting a word that is no brace takes no brace. -/
theorem keepsBraces_accept {mark : String} (opens : mark ≠ "\x7b") (closes : mark ≠ "\x7d") :
    (accept mark).KeepsBraces := by
  intro cursor value after ran
  by_cases here : cursor.word = mark
  · rw [run_accept_of_word here, Outcome.read.injEq] at ran
    obtain ⟨_, rfl⟩ := ran
    rw [openBraces_take, here, braceOf_eq_zero opens closes, Int.zero_add]
  · rw [run_accept_of_ne here, Outcome.read.injEq] at ran
    obtain ⟨_, rfl⟩ := ran
    rw [Cursor.rest_look]

/-- A string is no brace. -/
theorem keepsBraces_string : string.KeepsBraces := by
  refine keepsBraces_next_bind ?_ (refuses_fail _) (refuses_fail _)
  intro word
  cases Token.unquote? word with
  | none => exact (refuses_fail _).keepsBraces
  | some text => exact keepsBraces_pure text

/-- A form holds no brace. -/
theorem keepsBraces_form : form.KeepsBraces := by
  refine keepsBraces_string.bind fun plugin => (keepsBraces_require _ _).bind fun _ => ?_
  refine (keepsBraces_expect (by decide) (by decide)).bind fun _ => ?_
  refine keepsBraces_next_bind (fun number => ?_) ?_ ?_
  · exact (keepsBraces_require _ _).bind fun _ => keepsBraces_pure _
  · exact (refuses_require (by decide)).bind _
  · exact (refuses_require (by decide)).bind _

/-- A slot is no brace. -/
theorem keepsBraces_slot : slot.KeepsBraces := by
  refine keepsBraces_next_bind (fun word => ?_) (refuses_fail _) (refuses_fail _)
  split
  · split
    · exact keepsBraces_pure _
    · exact (refuses_fail _).keepsBraces
  · exact (refuses_fail _).keepsBraces

/-- An integer holds no brace. -/
theorem keepsBraces_integer : integer.KeepsBraces := by
  refine keepsBraces_next_bind (fun word => ?_) (refuses_fail _) (refuses_fail _)
  split
  · split
    · exact keepsBraces_pure _
    · exact (refuses_fail _).keepsBraces
  · exact (refuses_fail _).keepsBraces

/-- A number holds no brace. -/
theorem keepsBraces_number : number.KeepsBraces := by
  refine keepsBraces_next_bind (fun word => ?_) ?_ ?_
  · refine (keepsBraces_require _ _).bind fun _ => ?_
    refine (keepsBraces_accept (by decide) (by decide)).bind fun found => ?_
    cases found with
    | false => exact keepsBraces_pure _
    | true =>
      refine keepsBraces_next_bind (fun fraction => ?_) ?_ ?_
      · exact (keepsBraces_require _ _).bind fun _ => keepsBraces_pure _
      · exact (refuses_require (by decide)).bind _
      · exact (refuses_require (by decide)).bind _
  · exact (refuses_require (by decide)).bind _
  · exact (refuses_require (by decide)).bind _

/-- A run of items keeps braces when each item does. -/
theorem keepsBraces_afterEach {mark : String} {named : mark ≠ ""} {item : Reader α}
    (opens : mark ≠ "\x7b") (closes : mark ≠ "\x7d") (keeps : item.KeepsBraces) :
    (afterEach mark named item).KeepsBraces := by
  intro cursor
  induction measured : cursor.rest.length using Nat.strongRecOn generalizing cursor with
  | ind length ih =>
    intro values after ran
    by_cases here : cursor.word = mark
    · have more := Cursor.rest_ne_nil_of_word named here
      rw [run_afterEach_of_word here] at ran
      obtain ⟨value, middle, head, tail⟩ := bind_eq_read.1 ran
      obtain ⟨others, last, rest, done⟩ := bind_eq_read.1 tail
      obtain ⟨_, rfl⟩ := pure_eq_read.1 done
      have shorter : middle.rest.length < length := measured ▸ length_lt_of_take more head
      rw [openBraces_take, here, braceOf_eq_zero opens closes, Int.zero_add,
        keeps cursor.take value middle head]
      exact ih _ shorter middle rfl others last rest
    · rw [run_afterEach_of_ne here, Outcome.read.injEq] at ran
      obtain ⟨_, rfl⟩ := ran
      rw [Cursor.rest_look]

/-- Arguments open and close the same braces when each item does. -/
theorem keepsBraces_arguments {item : Reader α} (keeps : item.KeepsBraces) :
    (arguments item).KeepsBraces :=
  keeps.bind fun _ => (keepsBraces_afterEach (by decide) (by decide) keeps).bind fun _ =>
    (keepsBraces_expect (by decide) (by decide)).bind fun _ => keepsBraces_pure _

end Syntax.Reader

end FormPatch
