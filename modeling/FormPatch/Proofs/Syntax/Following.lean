import FormPatch.Proofs.Syntax.Success

/-!
# Readers that test word by word

Many readers take a fixed number of words and test each of them as it is taken. Such a reader
succeeds when every test is passed; otherwise it stops behind the first word that fails its test,
or at the end of the text.
-/

namespace FormPatch.Syntax

/-- Takes one token for each test, up to one that fails its test; answers whether all tests were
passed and the tokens that are left. -/
def check : List (String → Bool) → List Token → Bool × List Token
  | [], tokens => (true, tokens)
  | _ :: _, [] => (false, [])
  | test :: tests, token :: tokens =>
    if test token.text then check tests tokens else (false, tokens)

/-- A token that passes its test is taken. -/
theorem check_passed {test : String → Bool} {tests : List (String → Bool)} {token : Token}
    {tokens : List Token} (passed : test token.text = true) :
    check (test :: tests) (token :: tokens) = check tests tokens := by
  rw [check, if_pos passed]

/-- A token that fails its test is the first one left. -/
theorem check_failed {test : String → Bool} {tests : List (String → Bool)} {token : Token}
    {tokens : List Token} (wrong : test token.text = false) :
    check (test :: tests) (token :: tokens) = (false, tokens) := by
  rw [check, wrong, if_neg (by decide)]

/-- Tests in a row are checked one after the other. -/
theorem check_append (front behind : List (String → Bool)) (tokens : List Token) :
    check (front ++ behind) tokens =
      if (check front tokens).1 then check behind (check front tokens).2
      else (false, (check front tokens).2) := by
  induction front generalizing tokens with
  | nil => rfl
  | cons test front ih =>
    cases tokens with
    | nil => rfl
    | cons token tokens =>
      rw [List.cons_append]
      cases passed : test token.text with
      | true => rw [check_passed passed, check_passed passed, ih]
      | false =>
        rw [check_failed passed, check_failed passed]
        rfl

namespace Outcome

/-- Whether the reader succeeded. -/
def isRead {α : Type} : Outcome α → Bool
  | read _ _ => true
  | failed _ _ => false

end Outcome

namespace Reader

variable {α β γ : Type}

/-- A reader that takes a word for each test and fails at the first one that is not passed. -/
def Follows (tests : List (String → Bool)) (reader : Reader α) : Prop :=
  ∀ cursor, ((reader.run cursor).isRead, (reader.run cursor).cursor.rest) =
    check tests cursor.rest

/-- A reader that fails where it stands. -/
def Rejects (reader : Reader α) : Prop :=
  ∀ cursor, ∃ error, reader.run cursor = .failed error cursor

/-- Sequencing is associative. -/
theorem bind_assoc (reader : Reader α) (use : α → Reader β) (next : β → Reader γ) :
    reader >>= use >>= next = reader >>= fun value => use value >>= next := by
  apply ext
  intro cursor
  rw [run_bind, run_bind, run_bind]
  cases reader.run cursor with
  | read value after => rfl
  | failed error after => rfl

/-- A failure fails where it stands. -/
theorem rejects_fail (fault : Fault) : (fail fault : Reader α).Rejects := fun _ => ⟨_, rfl⟩

/-- A condition that is not met fails where it stands. -/
theorem rejects_require {condition : Bool} {fault : Fault} (wrong : condition = false) :
    (require condition fault).Rejects := by
  subst wrong
  exact rejects_fail fault

/-- A reader fails where it stands when the reader in front does. -/
theorem Rejects.bind {reader : Reader α} (rejects : reader.Rejects) (next : α → Reader β) :
    (reader >>= next).Rejects := by
  intro cursor
  obtain ⟨error, ran⟩ := rejects cursor
  refine ⟨error, ?_⟩
  rw [run_bind, ran]

/-- Answering at once needs no test. -/
theorem follows_pure (value : α) : (pure value : Reader α).Follows [] := fun _ => rfl

/-- Readers in a row follow their tests in a row. -/
theorem Follows.bind {reader : Reader α} {next : α → Reader β} {front behind : List (String → Bool)}
    (first : reader.Follows front) (second : ∀ value, (next value).Follows behind) :
    (reader >>= next).Follows (front ++ behind) := by
  intro cursor
  have head := first cursor
  rw [run_bind, check_append, ← head]
  cases ran : reader.run cursor with
  | read value after => exact second value after
  | failed error after => rfl

/-- What answers a condition that holds and goes on follows what it goes on with. -/
theorem follows_require_bind {condition : Bool} {fault : Fault} {next : Unit → Reader α}
    {tests : List (String → Bool)} (holds : condition = true) (follows : (next ()).Follows tests) :
    (require condition fault >>= next).Follows tests := by
  subst holds
  exact follows

/-- A word that passes its test leads to the other tests, and every other word is rejected. -/
theorem follows_next_bind {use : String → Reader α} {test : String → Bool}
    {tests : List (String → Bool)} (passes : ∀ word, test word = true → (use word).Follows tests)
    (rejects : ∀ word, test word = false → (use word).Rejects) (blank : test "" = false) :
    (next >>= use).Follows (test :: tests) := by
  intro cursor
  obtain ⟨rest, shown⟩ := cursor
  cases rest with
  | nil =>
    obtain ⟨error, ran⟩ := rejects "" blank ⟨[], shown⟩
    have whole : (next >>= use).run ⟨[], shown⟩ = .failed error ⟨[], shown⟩ := ran
    rw [whole]
    rfl
  | cons token rest =>
    show (((use token.text).run ⟨rest, token.position⟩).isRead,
      ((use token.text).run ⟨rest, token.position⟩).cursor.rest) = _
    cases passed : test token.text with
    | true =>
      rw [check_passed passed]
      exact passes token.text passed ⟨rest, token.position⟩
    | false =>
      obtain ⟨error, ran⟩ := rejects token.text passed ⟨rest, token.position⟩
      rw [check_failed passed, ran]
      rfl

/-- Expecting a word tests for that word. -/
theorem follows_expect {mark : String} (named : mark ≠ "") :
    (expect mark).Follows [(· == mark)] := by
  refine follows_next_bind (fun word passed => ?_) (fun word wrong => ?_) ?_
  · rw [if_pos (by simpa using passed)]
    exact follows_pure ()
  · rw [if_neg (by simpa using wrong)]
    exact rejects_fail _
  · simpa using named.symm

/-- A word that is a string literal whose text passes a test. -/
def quoted (test : String → Bool) (word : String) : Bool := (Token.unquote? word).any test

/-- A string literal leads to the other tests when its text passes. -/
theorem follows_string_bind {use : String → Reader α} {test : String → Bool}
    {tests : List (String → Bool)} (passes : ∀ text, test text = true → (use text).Follows tests)
    (rejects : ∀ text, test text = false → (use text).Rejects) :
    (string >>= use).Follows (quoted test :: tests) := by
  rw [string, bind_assoc]
  refine follows_next_bind (fun word passed => ?_) (fun word wrong => ?_) rfl
  · cases found : Token.unquote? word with
    | none => simp [quoted, found] at passed
    | some text => exact passes text (by simpa [quoted, found] using passed)
  · cases found : Token.unquote? word with
    | none => exact (rejects_fail _).bind use
    | some text => exact rejects text (by simpa [quoted, found] using wrong)

/-- What the words of a form reference are tested for. -/
def formTests : List (String → Bool) := [quoted (· != ""), (· == "|"), Text.isHexNumber]

/-- The reader of forms tests for the words of a form. -/
theorem follows_form : form.Follows formTests := by
  refine follows_string_bind (fun plugin passed => ?_) (fun plugin wrong => ?_)
  · refine follows_require_bind passed ?_
    refine (follows_expect (by decide)).bind fun _ => ?_
    refine follows_next_bind (fun number passed => ?_) (fun number wrong => ?_) (by decide)
    · exact follows_require_bind passed (follows_pure _)
    · exact (rejects_require wrong).bind _
  · exact (rejects_require wrong).bind _

end Reader

end FormPatch.Syntax
