import FormPatch.Proofs.Guard.Grammar

/-!
# The guards that are recognized

The reader of guards sees no more of what came before than the last element of the group. Each
element is recognized, and so is what may follow it, by induction on the tokens that are left; that
groups within a group are recognized comes from the room that they have. Main statement: the reader
takes tokens and answers a guard exactly where they derive the guard and a closing parenthesis
follows, and fails wherever else it is run.
-/

namespace FormPatch.Guard

open Syntax Syntax.Reader

section Reading

variable {room : Nat} {before : Option GuardToken}

/-- The reader of a binary operator recognizes its elements. -/
theorem recognizes_readBinary (operator : Operator) :
    (readBinary operator.mark operator before).Recognizes Anywhere
      (BinaryElement operator before) := by
  have named : operator.mark ≠ "" := by cases operator <;> decide
  have whole : (readBinary operator.mark operator before).Recognizes Anywhere _ :=
    Recognizes.expect named (recognizes_next
      ((refuses_require (decide_eq_false named.symm)).bind _) fun second =>
        ((recognizes_pure [GuardToken.operator operator]).require _ _).require _ _)
  refine whole.congr fun words tokens => ?_
  constructor
  · rintro ⟨_, rfl, second, _, rfl, same, complete, rfl, rfl⟩
    obtain rfl : second = operator.mark := by simpa using same
    exact ⟨complete, rfl, rfl⟩
  · rintro ⟨complete, rfl, rfl⟩
    exact ⟨_, rfl, _, _, rfl, by simp, complete, rfl, rfl⟩

/-- The reader of a negation recognizes its elements. -/
theorem recognizes_readNegation :
    (readNegation before).Recognizes Anywhere (NegationElement before) := by
  have whole : (readNegation before).Recognizes Anywhere _ :=
    (((recognizes_pure [GuardToken.operator .negate]).require _ _).require _ _).expect (by decide)
  refine whole.congr fun words tokens => ?_
  constructor
  · rintro ⟨_, rfl, apart, unfinished, rfl, rfl⟩
    exact ⟨by simpa using apart, by simpa using unfinished, rfl, rfl⟩
  · rintro ⟨apart, unfinished, rfl, rfl⟩
    exact ⟨_, rfl, by simpa using apart, by simpa using unfinished, rfl, rfl⟩

/-- The reader of a call recognizes an argument of its question in parentheses. -/
theorem recognizes_readCall (question : Question) :
    (readCall question).Recognizes Anywhere fun words call => ∃ others argument,
      words = "(" :: (others ++ [")"]) ∧ call = ⟨question, argument⟩ ∧
        question.Argument others argument := by
  have closed (argument : String) : (expect ")" >>= fun _ =>
      (pure ⟨question, argument⟩ : Reader Call)).Recognizes Anywhere _ :=
    (recognizes_pure _).expect (by decide)
  have whole : (readCall question).Recognizes Anywhere
      ((question.Argument.bind fun argument => Phrases.behind ")" fun words call =>
        words = [] ∧ call = ⟨question, argument⟩).behind "(") := by
    cases question with
    | isPluginExists => exact (recognizes_string.append closed).expect (by decide)
    | isFormExists => exact (recognizes_form.append closed).expect (by decide)
  refine whole.congr fun words call => ?_
  constructor
  · rintro ⟨_, rfl, argument, others, _, rfl, argued, _, rfl, rfl, rfl⟩
    exact ⟨others, argument, rfl, rfl, argued⟩
  · rintro ⟨others, argument, rfl, rfl, argued⟩
    exact ⟨_, rfl, argument, others, _, rfl, argued, _, rfl, rfl, rfl⟩

/-- What may be left behind the tokens of a group: words that start with the parenthesis that closes
it. -/
def Closed (_ : Guard) (left : List String) : Prop := left.head? = some ")"

/-- An element is recognized when groups within it are. -/
theorem recognizes_readElement {group : Reader Guard}
    (nested : group.Recognizes Closed (Inner room)) (word : String) :
    (readElement group before word).Recognizes Anywhere (Element room before word) := by
  unfold readElement Element
  split
  · have named : "(" ≠ "" := by decide
    have closed (inside : Guard) : (expect ")" >>= fun _ =>
        (pure (.opening :: inside ++ [.closing]) : Reader Guard)).Recognizes Anywhere _ :=
      (recognizes_pure _).expect (by decide)
    have whole := ((nested.bind closed (by
      rintro _ _ _ left ⟨_, rfl, _⟩ _
      rfl)).expect named).require (!isComplete before) .noOperator
    refine whole.congr fun words tokens => ?_
    constructor
    · rintro ⟨unfinished, _, rfl, inside, others, _, rfl, held, _, rfl, rfl, rfl⟩
      exact ⟨by simpa using unfinished, others, inside, rfl, rfl, held⟩
    · rintro ⟨unfinished, others, inside, rfl, rfl, held⟩
      exact ⟨by simpa using unfinished, _, rfl, inside, others, _, rfl, held, _, rfl, rfl, rfl⟩
  · split
    · exact recognizes_readBinary .both
    · split
      · exact recognizes_readBinary .either
      · split
        · exact recognizes_readNegation
        · cases Question.ofWord? word with
          | none => exact (refuses_fail _).recognizes
          | some question =>
            have named : question.word ≠ "" := by cases question <;> decide
            have call : (readCall question >>= fun call =>
                pure [GuardToken.call call]).Recognizes Anywhere _ :=
              (recognizes_readCall question).map (fun call => [GuardToken.call call])
                fun _ _ _ => trivial
            have whole := (call.expect named).require (!isComplete before) .noOperator
            refine whole.congr fun words tokens => ?_
            constructor
            · rintro ⟨unfinished, _, rfl, _, rfl, others, argument, rfl, rfl, argued⟩
              exact ⟨by simpa using unfinished, others, argument, rfl, rfl, argued⟩
            · rintro ⟨unfinished, others, argument, rfl, rfl, argued⟩
              exact ⟨by simpa using unfinished, _, rfl, _, rfl, others, argument, rfl, rfl, argued⟩

end Reading

section Groups

variable {room : Nat} {group : Reader Guard} {before : Option GuardToken}

/-- A group ends where an operand is complete. -/
theorem recognizes_readEnd (inside : before ≠ some .opening) :
    (readEnd before).Recognizes Closed fun words tokens =>
      isComplete before = true ∧ words = [] ∧ tokens = [] := by
  have refused (unfinished : isComplete before = false) (refuses : (readEnd before).Refuses) :
      (readEnd before).Recognizes Closed fun words tokens =>
        isComplete before = true ∧ words = [] ∧ tokens = [] :=
    refuses.recognizes.congr fun words tokens => by simp [unfinished]
  have ended (complete : isComplete before = true) (ends : readEnd before = pure []) :
      (readEnd before).Recognizes Closed fun words tokens =>
        isComplete before = true ∧ words = [] ∧ tokens = [] := by
    rw [ends]
    exact (recognizes_pure []).congr fun words tokens => by simp [complete]
  cases before with
  | none => exact refused rfl (refuses_fail _)
  | some token =>
    cases token with
    | call asked => exact ended rfl rfl
    | operator operator => exact refused rfl (refuses_fail _)
    | opening => exact absurd rfl inside
    | closing => exact ended rfl rfl

/-- What may follow in a group is recognized before the parenthesis that closes it. -/
theorem recognizes_groupFrom (nested : group.Recognizes Closed (Inner room))
    (inside : before ≠ some .opening) :
    (groupFrom group before).Recognizes Closed (Follows room before) := by
  intro cursor
  induction measured : cursor.rest.length using Nat.strongRecOn generalizing before cursor with
  | ind length ih =>
    by_cases ended : cursor.rest = []
    · intro value left closed
      rw [run_groupFrom_of_end ended]
      constructor
      · rintro ⟨after, ran, _⟩
        cases ran
      · rintro ⟨front, stands, _⟩
        rw [Cursor.rest_eq_nil.1 ended] at stands
        obtain ⟨rfl, rfl⟩ := List.append_eq_nil_iff.1 stands.symm
        cases closed
    · by_cases closes : cursor.word = ")"
      · have ends : Phrases.MatchesAt _ cursor.look.words Closed _ :=
          recognizes_readEnd inside cursor.look
        rw [Cursor.words_look] at ends
        rw [run_groupFrom_of_closing closes]
        refine ends.congr fun front value left stands _ => ?_
        have starts : (front ++ left).head? = some ")" := by
          rw [← stands, Cursor.words_of_word (by decide) closes]
          rfl
        exact (follows_closing_iff starts).symm
      · have element : Phrases.MatchesAt (Element room before cursor.word) cursor.look.words
            Anywhere _ := recognizes_readElement nested cursor.word cursor.look
        have later (tokens : Guard) (middle : Cursor)
            (ran : (readElement group before cursor.word).run cursor.look = .read tokens middle) :
            Phrases.MatchesAt _ middle.words Closed _ :=
          have shorter : middle.rest.length < length := by
            have taken := advances_readElement group before cursor.word _ _ _ ran
            rwa [Cursor.rest_look, measured] at taken
          have last : tokens.getLast? ≠ some .opening := by
            obtain ⟨front, _, spelled⟩ := (element tokens middle.words trivial).1 ⟨middle, ran, rfl⟩
            exact getLast?_of_element spelled
          .bind (fun _ _ => bind_eq_read) (ih _ shorter last middle rfl)
            (fun others place _ => recognizes_pure (tokens ++ others) place)
            (by rintro others _ _ left ⟨rfl, rfl⟩ closed; exact closed)
        have whole := Phrases.MatchesAt.bind (fun _ _ => bind_eq_read) element later
          fun _ _ _ _ _ _ => trivial
        rw [run_groupFrom ended closes]
        rw [Cursor.words_look] at whole
        refine whole.congr fun front value left stands closed => ?_
        constructor
        · rintro ⟨tokens, first, rest, rfl, spelled, others, rest', _, rfl, follows, rfl, rfl⟩
          rw [List.append_nil]
          exact follows_of_element spelled follows
        · intro follows
          have starts : front.head? = some cursor.word := by
            cases front with
            | nil =>
              obtain ⟨others, rfl⟩ := List.head?_eq_some_iff.1 closed
              exact absurd (Cursor.word_of_words stands) closes
            | cons first others => rw [Cursor.word_of_words stands, List.head?_cons]
          obtain ⟨first, rest, tokens, others, rfl, rfl, element, follows⟩ :=
            element_of_follows starts follows
          exact ⟨tokens, first, rest, rfl, element, others, rest, [], by simp, follows, rfl, rfl⟩

/-- However deep groups may lie, those within a guard are recognized. -/
theorem recognizes_innerGroup (room : Nat) : (innerGroup room).Recognizes Closed (Inner room) := by
  induction room with
  | zero => exact (refuses_fail _).recognizes
  | succ room ih =>
    have group : (groupFrom (innerGroup room) none).Recognizes Closed (Follows room none) :=
      recognizes_groupFrom ih (by simp)
    rwa [← readGroup_eq] at group

/-- The reader of guards recognizes what derives a guard. -/
theorem recognizes_derived : read.Recognizes Closed (Derives .guard mostNesting) :=
  recognizes_innerGroup (mostNesting + 1)

/-- A group that is read ends before a closing parenthesis. -/
theorem closes_groupFrom {cursor after : Cursor} {tokens : Guard}
    (ran : (groupFrom group before).run cursor = .read tokens after) :
    after.words.head? = some ")" := by
  induction before, cursor using runGroup.induct group generalizing tokens after with
  | case1 before cursor ended =>
    rw [run_groupFrom_of_end ended] at ran
    cases ran
  | case2 before cursor more closes =>
    rw [run_groupFrom_of_closing closes] at ran
    have stays : after = cursor.look := by
      unfold readEnd at ran
      split at ran
      · exact absurd ran fail_ne_read
      · exact absurd ran fail_ne_read
      · exact (pure_eq_read.1 ran).2.symm
    rw [stays, Cursor.words_look, Cursor.words_of_word (by decide) closes]
    rfl
  | case3 before cursor more inside error place failed =>
    rw [run_groupFrom more inside] at ran
    obtain ⟨_, _, head, _⟩ := bind_eq_read.1 ran
    rw [failed] at head
    cases head
  | case4 before cursor more inside found middle first _ ih =>
    rw [run_groupFrom more inside] at ran
    obtain ⟨_, _, head, tail⟩ := bind_eq_read.1 ran
    rw [first] at head
    cases head
    obtain ⟨_, _, rest, ended⟩ := bind_eq_read.1 tail
    obtain ⟨_, rfl⟩ := pure_eq_read.1 ended
    exact ih rest

end Groups

/-- Whether tokens derive a guard, with as many groups in each other as the reader allows, and a
closing parenthesis follows them. -/
def IsDerivedAt (taken left : List Token) (guard : Guard) : Prop :=
  left.head?.map Token.text = some ")" ∧
    Derives .guard mostNesting (taken.map Token.text) guard

/-- What is left behind a guard that is read starts with a closing parenthesis. -/
theorem closes_read {cursor after : Cursor} {guard : Guard}
    (ran : read.run cursor = .read guard after) : after.words.head? = some ")" := by
  rw [read, readGroup_eq] at ran
  exact closes_groupFrom ran

/-- The reader takes tokens and answers a guard exactly where they derive it. -/
theorem read_eq_iff (taken left : List Token) (shown : Position) (guard : Guard) :
    (∃ after, read.run ⟨taken ++ left, shown⟩ = .read guard after ∧ after.rest = left) ↔
      IsDerivedAt taken left guard := by
  have recognized := recognizes_derived ⟨taken ++ left, shown⟩ guard (left.map Token.text)
  have split : (⟨taken ++ left, shown⟩ : Cursor).words =
      taken.map Token.text ++ left.map Token.text := List.map_append
  rw [split] at recognized
  constructor
  · rintro ⟨after, ran, rfl⟩
    have closed := closes_read ran
    obtain ⟨front, stands, derived⟩ := (recognized closed).1 ⟨after, ran, rfl⟩
    obtain rfl := List.append_cancel_right stands
    rw [Cursor.words, List.head?_map] at closed
    exact ⟨closed, derived⟩
  · rintro ⟨closed, derived⟩
    rw [← List.head?_map] at closed
    obtain ⟨after, ran, kept⟩ := (recognized closed).2 ⟨_, rfl, derived⟩
    have suffix : after.rest <:+ taken ++ left := by
      have whole := read.suffix ⟨taken ++ left, shown⟩
      rwa [ran] at whole
    have length : after.rest.length = left.length := by
      simpa [Cursor.words] using congrArg List.length kept
    have shorter := List.suffix_of_suffix_length_le suffix (List.suffix_append taken left)
      (Nat.le_of_eq length)
    exact ⟨after, ran, shorter.eq_of_length length⟩

/-- The reader fails exactly where no tokens derive a guard. -/
theorem read_failed_iff (cursor : Cursor) :
    (∃ error after, read.run cursor = .failed error after) ↔
      ¬∃ taken left guard, cursor.rest = taken ++ left ∧ IsDerivedAt taken left guard := by
  constructor
  · rintro ⟨error, after, failed⟩ ⟨taken, left, guard, split, derived⟩
    obtain ⟨after', ran, _⟩ := (read_eq_iff taken left cursor.shown guard).2 derived
    rw [← split, failed] at ran
    cases ran
  · intro none
    cases ran : read.run cursor with
    | failed error after => exact ⟨error, after, rfl⟩
    | read guard after =>
      obtain ⟨taken, whole⟩ := read.suffix cursor
      rw [ran, Outcome.cursor_read] at whole
      have again : read.run ⟨taken ++ after.rest, cursor.shown⟩ = .read guard after := by
        rw [whole, ran]
      have derived := (read_eq_iff _ _ _ _).1 ⟨after, again, rfl⟩
      exact absurd ⟨taken, after.rest, guard, whole.symm, derived⟩ none

/-- The reader of guards takes exactly the tokens that derive a guard in front of a closing
parenthesis, and answers that guard; where no tokens do, it fails. -/
theorem language_of_guards :
    (∀ (taken left : List Token) (shown : Position) (guard : Guard),
      (∃ after, read.run ⟨taken ++ left, shown⟩ = .read guard after ∧ after.rest = left) ↔
        IsDerivedAt taken left guard) ∧
    ∀ cursor : Cursor, (∃ error after, read.run cursor = .failed error after) ↔
      ¬∃ taken left guard, cursor.rest = taken ++ left ∧ IsDerivedAt taken left guard :=
  ⟨read_eq_iff, read_failed_iff⟩

end FormPatch.Guard
