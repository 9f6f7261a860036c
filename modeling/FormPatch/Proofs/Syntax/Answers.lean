import FormPatch.Proofs.Syntax.Written

/-!
# What readers answer

A property of values is answered by a reader from some places when every value that it reads there
has it. It follows part by part, like the law of what is read: behind a value with one property the
next reader answers another, as long as a reader that starts at one of the places stops at one.

Two kinds of places matter. In the tokens of a text a string literal is quotable, while it could
hold anything in a list of tokens that no text has. And what is read within some tokens can be traced
back to them.
-/

namespace FormPatch.Syntax

namespace Cursor

/-- Places that are not left by taking tokens. -/
class Inherited (places : Cursor → Prop) : Prop where
  /-- What is left at such a place is one. -/
  of_suffix {cursor after : Cursor} (held : places cursor) (left : after.rest <:+ cursor.rest) :
    places after

section Inherited

variable {places : Cursor → Prop} [Inherited places] {cursor : Cursor}

/-- Looking ahead does not leave inherited places. -/
theorem Inherited.look (held : places cursor) : places cursor.look :=
  of_suffix held (by simp)

/-- Taking a token does not leave inherited places. -/
theorem Inherited.take (held : places cursor) : places cursor.take :=
  of_suffix held cursor.take_suffix

end Inherited

/-- Whether what is left at a cursor is the end of some tokens. -/
def IsWithin (tokens : List Token) (cursor : Cursor) : Prop := cursor.rest <:+ tokens

instance (tokens : List Token) : Inherited (IsWithin tokens) where
  of_suffix within left := left.trans within

/-- Whether what the string literals left at a cursor hold is quotable, as it is in a text. -/
def IsLexed (cursor : Cursor) : Prop :=
  ∀ word ∈ cursor.words, ∀ text, Token.unquote? word = some text → isQuotable text = true

/-- The tokens of a text are those of the lexer. -/
theorem isLexed_ofText (source : String) : (ofText source).IsLexed :=
  fun _ member _ unquoted => isQuotable_of_mem_words member unquoted

instance : Inherited IsLexed where
  of_suffix lexed left := fun word member => lexed word ((left.map Token.text).subset member)

/-- At the end of a text the next word is empty, and no string literal. -/
theorem IsLexed.word {cursor : Cursor} (lexed : cursor.IsLexed) {text : String}
    (unquoted : Token.unquote? cursor.word = some text) : isQuotable text = true := by
  obtain ⟨rest, shown⟩ := cursor
  cases rest with
  | nil => cases (by decide : Token.unquote? "" = none).symm.trans unquoted
  | cons token rest => exact lexed token.text List.mem_cons_self text unquoted

end Cursor

namespace Reader

variable {α β : Type} {good : α → Prop} {better : β → Prop} {places : Cursor → Prop}

/-- Whether every value that is read from some places has a property. -/
def AnswersFrom (places : Cursor → Prop) (good : α → Prop) (reader : Reader α) : Prop :=
  ∀ cursor value after, places cursor → reader.run cursor = .read value after → good value

/-- Whether every value that is read from a text has a property. -/
def Answers (good : α → Prop) (reader : Reader α) : Prop := reader.AnswersFrom Cursor.IsLexed good

/-- What is answered has each weaker property too. -/
theorem AnswersFrom.mono {reader : Reader α} {weaker : α → Prop}
    (answers : reader.AnswersFrom places good) (weakens : ∀ value, good value → weaker value) :
    reader.AnswersFrom places weaker :=
  fun cursor value after held ran => weakens value (answers cursor value after held ran)

/-- Answering at once gives the value, which has the property. -/
theorem answers_pure {value : α} (holds : good value) :
    (pure value : Reader α).AnswersFrom places good := by
  intro cursor found after _ ran
  obtain ⟨rfl, _⟩ := pure_eq_read.1 ran
  exact holds

/-- A failure answers nothing. -/
theorem answers_fail (fault : Fault) : (fail fault : Reader α).AnswersFrom places good :=
  fun _ _ _ _ ran => absurd ran fail_ne_read

/-- A condition that is required holds behind it. -/
theorem answers_require (condition : Bool) (fault : Fault) :
    (require condition fault).AnswersFrom places fun _ => condition = true :=
  fun _ _ _ _ ran => (require_eq_read.1 ran).1

/-- What a string literal of a text holds is quotable. -/
theorem answers_next :
    next.Answers fun word => ∀ text, Token.unquote? word = some text → isQuotable text = true := by
  intro cursor word after lexed ran text unquoted
  obtain ⟨rfl, _⟩ := next_eq_read.1 ran
  exact lexed.word unquoted

variable [Cursor.Inherited places]

/-- Where a value has been read, inherited places have not been left. -/
theorem inherited_after {reader : Reader α} {cursor after : Cursor} {value : α}
    (held : places cursor) (ran : reader.run cursor = .read value after) : places after := by
  have left := reader.suffix cursor
  rw [ran] at left
  exact Cursor.Inherited.of_suffix held left

/-- The value of a reader that goes on has what is shown from the value in front. -/
theorem AnswersFrom.bind {reader : Reader α} {next : α → Reader β}
    (first : reader.AnswersFrom places good)
    (second : ∀ value, good value → (next value).AnswersFrom places better) :
    (reader >>= next).AnswersFrom places better := by
  intro cursor value after held ran
  obtain ⟨found, middle, head, tail⟩ := bind_eq_read.1 ran
  exact second found (first _ _ _ held head) _ _ _ (inherited_after held head) tail

/-- What a reader answers need not matter for what the next one does. -/
theorem AnswersFrom.after {reader : Reader α} {next : α → Reader β}
    (second : ∀ value, (next value).AnswersFrom places better) :
    (reader >>= next).AnswersFrom places better :=
  AnswersFrom.bind (fun _ _ _ _ _ => trivial) fun value _ => second value

/-- Each item behind a mark has the property of items. -/
theorem answers_afterEach {mark : String} {named : mark ≠ ""} {item : Reader α}
    (items : item.AnswersFrom places good) :
    (afterEach mark named item).AnswersFrom places fun values => ∀ value ∈ values, good value := by
  intro cursor
  induction measured : cursor.rest.length using Nat.strongRecOn generalizing cursor with
  | ind length ih =>
    intro values after held ran
    by_cases here : cursor.word = mark
    · rw [run_afterEach_of_word here] at ran
      obtain ⟨value, place, first, later⟩ := bind_eq_read.1 ran
      obtain ⟨others, stop, rest, done⟩ := bind_eq_read.1 later
      obtain ⟨rfl, rfl⟩ := pure_eq_read.1 done
      have shorter : place.rest.length < length :=
        measured ▸ length_lt_of_take (Cursor.rest_ne_nil_of_word named here) first
      have taken : places cursor.take := Cursor.Inherited.take held
      have behind := ih _ shorter place rfl others _ (inherited_after taken first) rest
      simpa using ⟨items _ _ _ taken first, behind⟩
    · rw [run_afterEach_of_ne here, Outcome.read.injEq] at ran
      obtain ⟨rfl, _⟩ := ran
      simp

end Reader

namespace Tolerant

variable {α β : Type} {good : α → Prop} {better : β → Prop} {places : Cursor → Prop}

/-- Whether every value that is read from some places, over whatever faults, has a property. -/
def AnswersFrom (places : Cursor → Prop) (good : α → Prop) (reader : Tolerant α) : Prop :=
  ∀ cursor faults value after, places cursor →
    reader.run cursor = ⟨faults, .read value after⟩ → good value

/-- A tolerant reader of a strict one answers what that one does. -/
theorem answers_ofReader {reader : Reader α} (answers : reader.AnswersFrom places good) :
    (ofReader reader).AnswersFrom places good :=
  fun _ _ _ _ held ran => answers _ _ _ held (ofReader_eq_read.1 ran).1

/-- Answering at once over no faults gives the value, which has the property. -/
theorem answers_pure {value : α} (holds : good value) :
    (pure value : Tolerant α).AnswersFrom places good :=
  answers_ofReader (Reader.answers_pure holds)

variable [Cursor.Inherited places]

/-- A tolerant reader does not leave inherited places. -/
theorem inherited_cursor (reader : Tolerant α) {cursor : Cursor} (held : places cursor) :
    places (reader.run cursor).cursor :=
  Cursor.Inherited.of_suffix held (reader.suffix cursor)

/-- Where a tolerant reader has read a value, inherited places have not been left. -/
theorem inherited_after {reader : Tolerant α} {cursor after : Cursor} {faults : List Located}
    {value : α} (held : places cursor)
    (ran : reader.run cursor = ⟨faults, .read value after⟩) : places after := by
  have left := inherited_cursor reader held
  rwa [ran] at left

/-- The value of a tolerant reader that goes on has what is shown from the value in front. -/
theorem AnswersFrom.bind {reader : Tolerant α} {next : α → Tolerant β}
    (first : reader.AnswersFrom places good)
    (second : ∀ value, good value → (next value).AnswersFrom places better) :
    (reader >>= next).AnswersFrom places better := by
  intro cursor faults value after held ran
  obtain ⟨ahead, found, middle, behind, head, tail, rfl⟩ := bind_eq_read.1 ran
  exact second found (first _ _ _ _ held head) _ _ _ _ (inherited_after held head) tail

/-- What a reader answers need not matter for what the next one does. -/
theorem AnswersFrom.after {reader : Tolerant α} {next : α → Tolerant β}
    (second : ∀ value, (next value).AnswersFrom places better) :
    (reader >>= next).AnswersFrom places better :=
  AnswersFrom.bind (fun _ _ _ _ _ _ => trivial) fun value _ => second value

/-- Branches have the property of the items, the last one that of last items. -/
theorem answers_branches {mark : String} {named : mark ≠ ""} {item : Tolerant (α ⊕ β)}
    (items : item.AnswersFrom places fun branch => branch.elim good better) :
    (branches mark named item).AnswersFrom places fun found =>
      (∀ value ∈ found.1, good value) ∧ ∀ last ∈ found.2, better last := by
  intro cursor
  induction measured : cursor.rest.length using Nat.strongRecOn generalizing cursor with
  | ind length ih =>
    intro faults found after held ran
    by_cases here : cursor.word = mark
    · have more := Cursor.rest_ne_nil_of_word named here
      have taken : places cursor.take := Cursor.Inherited.take held
      rw [run_branches_of_word here] at ran
      obtain ⟨ahead, branch, place, others, first, rest, rfl⟩ := bind_eq_read.1 ran
      have holds := items _ _ _ _ taken first
      cases branch with
      | inr last =>
        obtain ⟨same, rfl⟩ := ofReader_eq_read.1 rest
        obtain ⟨rfl, rfl⟩ := Reader.pure_eq_read.1 same
        simpa using holds
      | inl value =>
        obtain ⟨inner, values, stop, none, recursive, done, rfl⟩ := bind_eq_read.1 rest
        obtain ⟨same, rfl⟩ := ofReader_eq_read.1 done
        obtain ⟨rfl, rfl⟩ := Reader.pure_eq_read.1 same
        have shorter : place.rest.length < length := measured ▸ length_lt_of_take more first
        have behind := ih _ shorter place rfl _ _ _ (inherited_after taken first) recursive
        exact ⟨List.forall_mem_cons.2 ⟨holds, behind.1⟩, behind.2⟩
    · rw [run_branches_of_ne here, Passage.mk.injEq, Outcome.read.injEq] at ran
      obtain ⟨_, rfl, _⟩ := ran
      simp

end Tolerant

end FormPatch.Syntax
