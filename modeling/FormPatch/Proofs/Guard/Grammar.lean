import FormPatch.Proofs.Guard.Written
import FormPatch.Proofs.Syntax.Spelling

/-!
# The grammar of guards

A guard is written as operands with binary operators between them; an operand is a call or a group,
perhaps behind a negation, and a group holds a guard. Main statement: the last element of a group
tells what may follow, so guards may be taken apart element by element. Behind an operand there is
nothing or a binary operator and a guard, behind a negation a call or a group, otherwise a guard.
-/

namespace FormPatch

open Syntax Syntax.Reader

/-- The words for the argument of a question: a name in quotes or a form reference. -/
def Question.Argument : Question → Phrases String
  | .isPluginExists => Phrases.string
  | .isFormExists => Phrases.Form

namespace Guard

/-- The parts of guards. -/
inductive Part where
  /-- Operands with binary operators between them. -/
  | guard
  /-- A primary, perhaps behind a negation. -/
  | operand
  /-- A call or a group. -/
  | primary
deriving DecidableEq, Repr

/-- The words that derive a part of a guard with no more than a number of groups in each other, and
the tokens that they stand for. -/
inductive Derives : Part → Nat → Phrases Guard
  /-- A call. -/
  | call {room : Nat} {question : Question} {words : List String} {argument : String}
    (argued : question.Argument words argument) :
    Derives .primary room (question.word :: "(" :: (words ++ [")"])) [.call ⟨question, argument⟩]
  /-- A group takes room. -/
  | group {room : Nat} {words : List String} {inside : Guard}
    (derived : Derives .guard room words inside) :
    Derives .primary (room + 1) ("(" :: (words ++ [")"])) (.opening :: inside ++ [.closing])
  /-- A primary. -/
  | plain {room : Nat} {words : List String} {tokens : Guard}
    (derived : Derives .primary room words tokens) : Derives .operand room words tokens
  /-- A negation and a primary. -/
  | negation {room : Nat} {words : List String} {tokens : Guard}
    (derived : Derives .primary room words tokens) :
    Derives .operand room ("!" :: words) (.operator .negate :: tokens)
  /-- An operand. -/
  | single {room : Nat} {words : List String} {tokens : Guard}
    (derived : Derives .operand room words tokens) : Derives .guard room words tokens
  /-- An operand, a binary operator, which is written twice, and further operands. -/
  | link {room : Nat} {operator : Operator} {front behind : List String} {left right : Guard}
    (binary : operator ≠ .negate) (first : Derives .operand room front left)
    (others : Derives .guard room behind right) :
    Derives .guard room (front ++ operator.mark :: operator.mark :: behind)
      (left ++ .operator operator :: right)

/-- What may follow an operand in a group: nothing, or a binary operator and a guard. -/
inductive Linked (room : Nat) : Phrases Guard
  /-- Nothing. -/
  | nothing : Linked room [] []
  /-- A binary operator and a guard. -/
  | link {operator : Operator} {words : List String} {tokens : Guard}
    (binary : operator ≠ .negate) (others : Derives .guard room words tokens) :
    Linked room (operator.mark :: operator.mark :: words) (.operator operator :: tokens)

/-- A part of a guard and what may follow it in a group. -/
def OpensWith (part : Part) (room : Nat) : Phrases Guard := fun words tokens =>
  ∃ front behind left right, words = front ++ behind ∧ tokens = left ++ right ∧
    Derives part room front left ∧ Linked room behind right

/-- What may follow in a group, as the element before it tells. -/
def Follows (room : Nat) (before : Option GuardToken) : Phrases Guard :=
  if isComplete before then Linked room
  else if before = some (.operator .negate) then OpensWith .primary room
  else Derives .guard room

/-- The guards that a group within a guard may hold. -/
def Inner : Nat → Phrases Guard
  | 0 => fun _ _ => False
  | room + 1 => Derives .guard room

section Derivations

variable {room : Nat} {words : List String} {tokens : Guard}

/-- A guard is an operand and what may follow it. -/
theorem derives_guard_iff :
    Derives .guard room words tokens ↔ OpensWith .operand room words tokens := by
  constructor
  · intro derived
    cases derived with
    | single derived => exact ⟨_, [], _, [], by simp, by simp, derived, .nothing⟩
    | link binary first others => exact ⟨_, _, _, _, rfl, rfl, first, .link binary others⟩
  · rintro ⟨front, behind, left, right, rfl, rfl, first, linked⟩
    cases linked with
    | nothing => simpa using Derives.single first
    | link binary others => exact .link binary first others

/-- An operand is a primary or a negation and one. -/
theorem opensWith_operand_iff :
    OpensWith .operand room words tokens ↔ OpensWith .primary room words tokens ∨
      ∃ others rest, words = "!" :: others ∧ tokens = .operator .negate :: rest ∧
        OpensWith .primary room others rest := by
  constructor
  · rintro ⟨front, behind, left, right, rfl, rfl, first, linked⟩
    cases first with
    | plain derived => exact .inl ⟨_, _, _, _, rfl, rfl, derived, linked⟩
    | negation derived =>
      exact .inr ⟨_, _, rfl, rfl, _, _, _, _, rfl, rfl, derived, linked⟩
  · rintro (⟨front, behind, left, right, rfl, rfl, first, linked⟩ |
      ⟨_, _, rfl, rfl, front, behind, left, right, rfl, rfl, first, linked⟩)
    · exact ⟨_, _, _, _, rfl, rfl, .plain first, linked⟩
    · exact ⟨"!" :: front, behind, .operator .negate :: left, right, rfl, rfl, .negation first,
        linked⟩

/-- A primary ends with an operand. -/
theorem Derives.isComplete_primary (derived : Derives .primary room words tokens) :
    isComplete tokens.getLast? = true := by
  cases derived with
  | call argued => rfl
  | group derived =>
    rw [List.getLast?_concat]
    rfl

end Derivations

/-- A binary operator as an element. -/
def BinaryElement (operator : Operator) (before : Option GuardToken) : Phrases Guard :=
  fun words tokens => isComplete before = true ∧ words = [operator.mark, operator.mark] ∧
    tokens = [.operator operator]

/-- A negation as an element. -/
def NegationElement (before : Option GuardToken) : Phrases Guard :=
  fun words tokens => before ≠ some (.operator .negate) ∧ isComplete before = false ∧
    words = ["!"] ∧ tokens = [.operator .negate]

/-- A group as an element. -/
def GroupElement (room : Nat) (before : Option GuardToken) : Phrases Guard :=
  fun words tokens => isComplete before = false ∧ ∃ others inside,
    words = "(" :: (others ++ [")"]) ∧ tokens = .opening :: inside ++ [.closing] ∧
      Inner room others inside

/-- A call as an element. -/
def CallElement (question : Question) (before : Option GuardToken) : Phrases Guard :=
  fun words tokens => isComplete before = false ∧ ∃ others argument,
    words = question.word :: "(" :: (others ++ [")"]) ∧ tokens = [.call ⟨question, argument⟩] ∧
      question.Argument others argument

/-- The elements of a group that start with a word. -/
def Element (room : Nat) (before : Option GuardToken) (word : String) : Phrases Guard :=
  if word = "(" then GroupElement room before
  else if word = "&" then BinaryElement .both before
  else if word = "|" then BinaryElement .either before
  else if word = "!" then NegationElement before
  else
    match Question.ofWord? word with
    | none => fun _ _ => False
    | some question => CallElement question before

section Following

variable {room : Nat} {before : Option GuardToken} {word : String} {words : List String}
  {tokens : Guard}

/-- Behind an operand stands what links it to the next one. -/
theorem follows_complete (complete : isComplete before = true) :
    Follows room before = Linked room := by
  rw [Follows, if_pos complete]

/-- Behind a binary operator stands a guard of its own. -/
theorem follows_operator {operator : Operator} (binary : operator ≠ .negate) :
    Follows room (some (.operator operator)) = Derives .guard room := by
  rw [Follows, if_neg (by simp [isComplete, GuardToken.endsOperand]),
    if_neg (by simpa using binary)]

/-- Where no operand is complete, a primary may follow. -/
theorem follows_primary (unfinished : isComplete before = false)
    (opens : OpensWith .primary room words tokens) : Follows room before words tokens := by
  rw [Follows, if_neg (by simp [unfinished])]
  split
  · exact opens
  · exact derives_guard_iff.2 (opensWith_operand_iff.2 (.inl opens))

/-- Where no operand is complete, a primary or a negation and one follows. -/
theorem follows_unfinished_iff (unfinished : isComplete before = false) :
    Follows room before words tokens ↔ OpensWith .primary room words tokens ∨
      before ≠ some (.operator .negate) ∧ ∃ others rest, words = "!" :: others ∧
        tokens = .operator .negate :: rest ∧ OpensWith .primary room others rest := by
  rw [Follows, if_neg (by simp [unfinished])]
  split
  · next negated => simp [negated]
  · next apart =>
    rw [derives_guard_iff, opensWith_operand_iff]
    simp [apart]

/-- The element that starts with the mark of a binary operator is that operator. -/
theorem element_operator {operator : Operator} (binary : operator ≠ .negate) :
    Element room before operator.mark = BinaryElement operator before := by
  cases operator with
  | both => rfl
  | either => rfl
  | negate => exact absurd rfl binary

/-- A primary is an element that starts with its first word. -/
theorem Derives.element_of_primary (derived : Derives .primary room words tokens)
    (unfinished : isComplete before = false) :
    ∃ word, words.head? = some word ∧ Element room before word words tokens := by
  cases derived with
  | @call room question words argument argued =>
    refine ⟨question.word, rfl, ?_⟩
    have element : Element room before question.word = CallElement question before := by
      cases question <;> rfl
    rw [element]
    exact ⟨unfinished, words, argument, rfl, rfl, argued⟩
  | @group room words inside derived =>
    exact ⟨"(", rfl, unfinished, words, inside, rfl, rfl, derived⟩

/-- A group that is an element derives a primary. -/
theorem derives_of_inner {inside : Guard} (held : Inner room words inside) :
    Derives .primary room ("(" :: (words ++ [")"])) (.opening :: inside ++ [.closing]) := by
  cases room with
  | zero => exact held.elim
  | succ room => exact .group held

/-- An element is a primary where no operand is complete, a binary operator or a negation. -/
theorem element_cases (element : Element room before word words tokens) :
    (isComplete before = false ∧ Derives .primary room words tokens) ∨
      (∃ operator, operator ≠ .negate ∧ BinaryElement operator before words tokens) ∨
        NegationElement before words tokens := by
  unfold Element at element
  split at element
  · obtain ⟨unfinished, others, inside, rfl, rfl, held⟩ := element
    exact .inl ⟨unfinished, derives_of_inner held⟩
  · split at element
    · exact .inr (.inl ⟨.both, by decide, element⟩)
    · split at element
      · exact .inr (.inl ⟨.either, by decide, element⟩)
      · split at element
        · exact .inr (.inr element)
        · cases asked : Question.ofWord? word with
          | none =>
            rw [asked] at element
            exact element.elim
          | some question =>
            rw [asked] at element
            obtain ⟨unfinished, others, argument, rfl, rfl, argued⟩ := element
            exact .inl ⟨unfinished, .call argued⟩

/-- What is an element, and what may follow it, may follow. -/
theorem follows_of_element {behind : List String} {others : Guard}
    (element : Element room before word words tokens)
    (follows : Follows room tokens.getLast? behind others) :
    Follows room before (words ++ behind) (tokens ++ others) := by
  rcases element_cases element with
    ⟨unfinished, derived⟩ | ⟨operator, binary, complete, rfl, rfl⟩ | ⟨apart, unfinished, rfl, rfl⟩
  · rw [follows_complete derived.isComplete_primary] at follows
    exact follows_primary unfinished ⟨_, _, _, _, rfl, rfl, derived, follows⟩
  · rw [List.getLast?_singleton, follows_operator binary] at follows
    rw [follows_complete complete]
    exact .link binary follows
  · exact (follows_unfinished_iff unfinished).2 (.inr ⟨apart, _, _, rfl, rfl, follows⟩)

/-- The last token of an element opens no group. -/
theorem getLast?_of_element (element : Element room before word words tokens) :
    tokens.getLast? ≠ some .opening := by
  rcases element_cases element with
    ⟨_, derived⟩ | ⟨operator, _, _, _, rfl⟩ | ⟨_, _, _, rfl⟩
  · intro opening
    have complete := derived.isComplete_primary
    rw [opening] at complete
    cases complete
  · simp
  · simp

/-- What may follow is an element and what may follow that. -/
theorem element_of_follows (starts : words.head? = some word)
    (follows : Follows room before words tokens) :
    ∃ front behind found others, words = front ++ behind ∧ tokens = found ++ others ∧
      Element room before word front found ∧ Follows room found.getLast? behind others := by
  cases complete : isComplete before with
  | true =>
    rw [follows_complete complete] at follows
    cases follows with
    | nothing => cases starts
    | @link operator words tokens binary others =>
      obtain rfl := Option.some.inj starts
      refine ⟨[operator.mark, operator.mark], words, [.operator operator], tokens, rfl, rfl, ?_, ?_⟩
      · rw [element_operator binary]
        exact ⟨complete, rfl, rfl⟩
      · rw [List.getLast?_singleton, follows_operator binary]
        exact others
  | false =>
    rcases (follows_unfinished_iff complete).1 follows with
      ⟨front, behind, left, right, rfl, rfl, first, linked⟩ | ⟨apart, others, rest, rfl, rfl, opens⟩
    · obtain ⟨word', starts', element⟩ := first.element_of_primary complete
      obtain rfl : word' = word := by
        rw [List.head?_append, starts'] at starts
        exact Option.some.inj starts
      refine ⟨front, behind, left, right, rfl, rfl, element, ?_⟩
      rwa [follows_complete first.isComplete_primary]
    · obtain rfl := Option.some.inj starts
      exact ⟨["!"], others, [.operator .negate], rest, rfl, rfl, ⟨apart, complete, rfl, rfl⟩, opens⟩

/-- In front of a closing parenthesis, what may follow is nothing, where an operand is complete. -/
theorem follows_closing_iff {left : List String}
    (starts : (words ++ left).head? = some ")") :
    Follows room before words tokens ↔ isComplete before = true ∧ words = [] ∧ tokens = [] := by
  constructor
  · intro follows
    cases words with
    | cons first others =>
      have starts' : (first :: others).head? = some ")" := starts
      obtain ⟨_, _, _, _, _, _, element, _⟩ := element_of_follows starts' follows
      -- No element starts with a closing parenthesis.
      exact False.elim element
    | nil =>
      cases complete : isComplete before with
      | true =>
        rw [follows_complete complete] at follows
        cases follows
        exact ⟨rfl, rfl, rfl⟩
      | false =>
        rcases (follows_unfinished_iff complete).1 follows with
          ⟨front, behind, _, _, empty, _, first, _⟩ | ⟨_, _, _, empty, _⟩
        · obtain ⟨rfl, rfl⟩ := List.append_eq_nil_iff.1 empty.symm
          cases first
        · cases empty
  · rintro ⟨complete, rfl, rfl⟩
    rw [follows_complete complete]
    exact .nothing

end Following

end Guard

end FormPatch
