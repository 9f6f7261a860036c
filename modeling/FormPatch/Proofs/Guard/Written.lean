import FormPatch.Proofs.Guard.Accepted
import FormPatch.Proofs.Guard.Streaming
import FormPatch.Proofs.Syntax.Values

/-!
# Guards that are written and read

A guard is readable when it derives from the grammar, its calls have arguments that can be written,
no negation follows another one and its groups nest as deep as the reader allows. Main statement: a
readable guard is read back from its written form.

The induction is on the derivation. What stands behind a part of a group is read with that part's
last token in mind, so the law of a part turns the law of what follows into the law of both.
-/

namespace FormPatch

open Syntax Syntax.Reader

/-- Whether the argument of a call can be written: the name of a plugin in quotes, or a form
reference. -/
def Call.IsWritten (call : Call) : Prop :=
  match call.question with
  | .isPluginExists => isQuotable call.argument = true
  | .isFormExists => IsForm call.argument

/-- The argument of a call as it is written. -/
def Call.argumentText (call : Call) : String :=
  match call.question with
  | .isPluginExists => inQuotes call.argument
  | .isFormExists => formText call.argument

/-- A call is written as its word and its argument in parentheses. -/
theorem Call.text_eq (call : Call) :
    call.text = call.question.word ++ ("(" ++ (call.argumentText ++ ")")) := by
  obtain ⟨question, argument⟩ := call
  apply String.toList_inj.1
  cases question with
  | isPluginExists => simp [Call.text, Call.argumentText, Question.word, inQuotes, toString]
  | isFormExists => simp [Call.text, Call.argumentText, Question.word, toString]

/-- The word of a question is a single token. -/
theorem Question.isWord_word (question : Question) : isWord question.word = true := by
  cases question <;> decide

/-- The delimiter that an operator is written with; binary operators are written with two. -/
def Operator.mark : Operator → String
  | both => "&"
  | either => "|"
  | negate => "!"

/-- The mark of an operator is a delimiter. -/
theorem Operator.isMark_mark (operator : Operator) : isMark operator.mark = true := by
  cases operator <;> decide

namespace Guard

/-- Whether no more than some number of groups is open anywhere. -/
def nestsWithin : Nat → Guard → Bool
  | _, [] => true
  | 0, .opening :: _ => false
  | room + 1, .opening :: rest => nestsWithin room rest
  | room, .closing :: rest => nestsWithin (room + 1) rest
  | room, .call _ :: rest => nestsWithin room rest
  | room, .operator _ :: rest => nestsWithin room rest

/-- Two negations, one behind the other. -/
def doubleNegation : Guard := [.operator .negate, .operator .negate]

/-- What the reader asks of the tokens of a guard besides their derivation. -/
structure IsPlain (room : Nat) (guard : Guard) : Prop where
  /-- The arguments of calls can be written. -/
  calls : ∀ asked, .call asked ∈ guard → asked.IsWritten
  /-- No negation follows another one. -/
  singly : ¬doubleNegation <:+: guard
  /-- Groups lie no deeper in each other than there is room for. -/
  nests : guard.nestsWithin room = true

/-- A guard that can be read back. -/
structure IsReadable (guard : Guard) : Prop where
  /-- The guard derives from the grammar. -/
  derives : IsFormula guard
  /-- Its tokens are plain. -/
  plain : guard.IsPlain mostNesting

/-- No tokens are written as nothing. -/
theorem text_nil : text [] = "" := rfl

/-- Tokens are written one behind the other. -/
theorem text_cons (token : GuardToken) (rest : Guard) :
    text (token :: rest) = token.text ++ text rest := by
  rw [text, List.map_cons, String.join_cons, text]

/-- Joined guards are written one behind the other. -/
theorem text_append (front behind : Guard) :
    text (front ++ behind) = text front ++ text behind := by
  induction front with
  | nil => rw [List.nil_append, text_nil, String.empty_append]
  | cons token rest ih => rw [List.cons_append, text_cons, text_cons, ih, String.append_assoc]

namespace Formula

variable {tier : Tier}

/-- A part of a guard holds no group open, so what follows has the same room. -/
theorem nestsWithin_append (formula : Formula tier) (room : Nat) (rest : Guard) :
    nestsWithin room (formula.tokens ++ rest) =
      (nestsWithin room formula.tokens && nestsWithin room rest) := by
  induction formula generalizing room rest with
  | call asked => simp [tokens, nestsWithin]
  | group inside ih =>
    cases room with
    | zero => simp [tokens, nestsWithin]
    | succ room => simp [tokens, nestsWithin, ih]
  | plain operand ih => exact ih room rest
  | negation operand ih => simp [tokens, nestsWithin, ih]
  | first operand ih => exact ih room rest
  | both left right leftIh rightIh =>
    simp [tokens, leftIh, rightIh, nestsWithin, Bool.and_assoc]
  | only operand ih => exact ih room rest
  | either left right leftIh rightIh =>
    simp [tokens, leftIh, rightIh, nestsWithin, Bool.and_assoc]

/-- A part of a guard ends with an operand. -/
theorem isComplete_tokens (formula : Formula tier) :
    isComplete formula.tokens.getLast? = true := by
  induction formula with
  | call asked => rfl
  | group inside ih =>
    rw [tokens, List.getLast?_concat]
    rfl
  | plain operand ih => exact ih
  | first operand ih => exact ih
  | only operand ih => exact ih
  | negation operand ih =>
    cases last : operand.tokens.getLast? with
    | none => simp [last, isComplete] at ih
    | some token => simpa [tokens, List.getLast?_cons, last] using ih
  | both left right leftIh rightIh =>
    cases last : right.tokens.getLast? with
    | none => simp [last, isComplete] at rightIh
    | some token => simpa [tokens, List.getLast?_cons, last] using rightIh
  | either left right leftIh rightIh =>
    cases last : right.tokens.getLast? with
    | none => simp [last, isComplete] at rightIh
    | some token => simpa [tokens, List.getLast?_cons, last] using rightIh

end Formula

namespace IsPlain

variable {room : Nat} {front behind inside : Guard}

/-- A part of a guard is plain. -/
theorem left {tier : Tier} {formula : Formula tier}
    (plain : IsPlain room (formula.tokens ++ behind)) : IsPlain room formula.tokens := by
  have nests := plain.nests
  rw [formula.nestsWithin_append, Bool.and_eq_true] at nests
  exact ⟨fun asked member => plain.calls asked (List.mem_append_left _ member),
    fun double => plain.singly (double.trans (List.prefix_append _ _).isInfix), nests.1⟩

/-- What follows a part of a guard is plain. -/
theorem right {tier : Tier} {formula : Formula tier}
    (plain : IsPlain room (formula.tokens ++ behind)) : IsPlain room behind := by
  have nests := plain.nests
  rw [formula.nestsWithin_append, Bool.and_eq_true] at nests
  exact ⟨fun asked member => plain.calls asked (List.mem_append_right _ member),
    fun double => plain.singly (double.trans (List.suffix_append _ _).isInfix), nests.2⟩

/-- What follows an operator is plain. -/
theorem behind_operator {operator : Operator}
    (plain : IsPlain room (.operator operator :: behind)) : IsPlain room behind :=
  ⟨fun asked member => plain.calls asked (List.mem_cons_of_mem _ member),
    fun double => plain.singly (double.trans (List.suffix_cons _ _).isInfix), by
      have nests := plain.nests
      rwa [nestsWithin] at nests⟩

/-- What follows a negation starts with no other one. -/
theorem apart_of_negate (plain : IsPlain room (.operator .negate :: behind)) :
    behind.head? ≠ some (.operator .negate) := by
  intro next
  cases behind with
  | nil => cases next
  | cons token rest =>
    obtain rfl := Option.some.inj next
    exact plain.singly ⟨[], rest, rfl⟩

/-- A group takes room, and what it holds is plain in the room that is left. -/
theorem inside_group {formula : Formula .disjunction}
    (plain : IsPlain room (.opening :: formula.tokens ++ [.closing])) :
    ∃ left, room = left + 1 ∧ IsPlain left formula.tokens := by
  cases room with
  | zero =>
    have nests := plain.nests
    simp [nestsWithin] at nests
  | succ left =>
    have nests := plain.nests
    rw [List.cons_append, nestsWithin, formula.nestsWithin_append, Bool.and_eq_true] at nests
    refine ⟨left, rfl, fun asked member => plain.calls asked (by simp [member]), ?_, nests.1⟩
    intro double
    exact plain.singly (double.trans ⟨[.opening], [.closing], by simp⟩)

end IsPlain

/-- How a group is read within a group that leaves some room. -/
def innerGroup : Nat → Reader Guard
  | 0 => fail .nesting
  | room + 1 => readGroup room

/-- A group is read from its start, with no element in front. -/
theorem readGroup_eq (room : Nat) : readGroup room = groupFrom (innerGroup room) none := by
  cases room <;> rfl

section Elements

variable {group : Reader Guard} {before : Option GuardToken} {rest : String}

/-- A written call is an element where an operand may stand. -/
theorem reads_call {asked : Call} (written : asked.IsWritten)
    (unfinished : isComplete before = false) :
    (readElement group before asked.question.word).Reads asked.text [.call asked] rest := by
  rw [asked.text_eq]
  obtain ⟨question, argument⟩ := asked
  have call : (readCall question).Reads
      ("(" ++ (Call.argumentText ⟨question, argument⟩ ++ ")")) ⟨question, argument⟩ rest := by
    refine (reads_expect (stands_mark (by decide) _)).bind ?_
    have closes : (expect ")" >>= fun _ => pure (⟨question, argument⟩ : Call)).Reads ")"
        ⟨question, argument⟩ rest :=
      (reads_expect (stands_mark (by decide) rest)).last (reads_pure _ rest)
    cases question with
    | isPluginExists => exact (reads_string written).bind closes
    | isFormExists => exact (reads_form written (breaks_append (by decide) rest)).bind closes
  have word : (expect question.word).Reads question.word ()
      (("(" ++ (Call.argumentText ⟨question, argument⟩ ++ ")")) ++ rest) :=
    reads_expect (stands_word question.isWord_word
      (by rw [String.append_assoc]; exact breaks_append (by decide) _))
  have position : (!isComplete before) = true := by
    rw [unfinished]
    rfl
  cases question with
  | isPluginExists =>
    exact (reads_require position _).ahead (word.bind (call.last (reads_pure _ rest)))
  | isFormExists =>
    exact (reads_require position _).ahead (word.bind (call.last (reads_pure _ rest)))

/-- A written binary operator is an element behind an operand. -/
theorem reads_binary {operator : Operator} (binary : operator ≠ .negate)
    (complete : isComplete before = true) :
    (readElement group before operator.mark).Reads (operator.mark ++ operator.mark)
      [.operator operator] rest := by
  have element : readElement group before operator.mark =
      readBinary operator.mark operator before := by
    cases operator with
    | both => rfl
    | either => rfl
    | negate => exact absurd rfl binary
  have delimits := operator.isMark_mark
  rw [element]
  refine (reads_expect (stands_mark delimits _)).bind ?_
  refine (reads_next (stands_mark delimits rest)).last ?_
  exact (reads_require (by simp) _).ahead ((reads_require complete _).ahead (reads_pure _ rest))

/-- A written negation is an element where an operand may stand, but not behind a negation. -/
theorem reads_negation (unfinished : isComplete before = false)
    (apart : before ≠ some (.operator .negate)) :
    (readElement group before "!").Reads "!" [.operator .negate] rest :=
  (reads_expect (stands_mark (by decide) rest)).last
    ((reads_require (by simpa using apart) _).ahead
      ((reads_require (by rw [unfinished]; rfl) _).ahead (reads_pure _ rest)))

/-- A written group is an element where an operand may stand. -/
theorem reads_group {text : String} {inside : Guard} (unfinished : isComplete before = false)
    (nested : group.Reads text inside (")" ++ rest)) :
    (readElement group before "(").Reads ("(" ++ (text ++ ")")) (.opening :: inside ++ [.closing])
      rest := by
  refine (reads_require (by rw [unfinished]; rfl) _).ahead ?_
  refine (reads_expect (stands_mark (by decide) _)).bind (nested.bind ?_)
  exact (reads_expect (stands_mark (by decide) rest)).last (reads_pure _ rest)

/-- A group goes on with an element that does not close it. -/
theorem reads_groupFrom (word : String) {text behind : String} {tokens others : Guard}
    (starts : (words (text ++ (behind ++ rest))).head? = some word) (inside : word ≠ ")")
    (element : (readElement group before word).Reads text tokens (behind ++ rest))
    (tail : (groupFrom group tokens.getLast?).Reads behind others rest) :
    (groupFrom group before).Reads (text ++ behind) (tokens ++ others) rest := by
  intro cursor left
  obtain ⟨later, split⟩ : ∃ later, cursor.words = word :: later := by
    rw [← String.append_assoc, ← left] at starts
    exact List.head?_eq_some_iff.1 starts
  have same := Cursor.word_of_words split
  have more : cursor.rest ≠ [] := by simp [Cursor.rest_eq_nil, split]
  have whole : (readElement group before word >>= fun tokens =>
      groupFrom group tokens.getLast? >>= fun others => pure (tokens ++ others)).Reads
        (text ++ behind) (tokens ++ others) rest :=
    element.bind (tail.last (reads_pure (tokens ++ others) rest))
  obtain ⟨after, ran, left⟩ := whole cursor.look (by rw [Cursor.words_look, left])
  exact ⟨after, by rwa [run_groupFrom more (by rwa [same]), same], left⟩

/-- A group ends in front of a parenthesis when its last operand is complete. -/
theorem reads_groupFrom_end (complete : isComplete before = true) (rest : String) :
    (groupFrom group before).Reads "" [] (")" ++ rest) := by
  intro cursor left
  rw [String.empty_append] at left
  have stands : Stands ")" rest := stands_mark (by decide) rest
  refine ⟨cursor.look, ?_, by rw [Cursor.words_look, left]⟩
  rw [stands] at left
  rw [run_groupFrom_of_closing (Cursor.word_of_words left)]
  cases before with
  | none => cases complete
  | some token =>
    cases token with
    | call asked => rfl
    | operator operator => cases complete
    | opening => cases complete
    | closing => rfl

/-- A binary operator is read behind an operand, and then what follows it. -/
theorem reads_operator {behind : String} {operator : Operator} {others : Guard}
    (binary : operator ≠ .negate) (complete : isComplete before = true)
    (tail : (groupFrom group (some (.operator operator))).Reads behind others rest) :
    (groupFrom group before).Reads (GuardToken.text (.operator operator) ++ behind)
      (.operator operator :: others) rest := by
  have spelled : GuardToken.text (.operator operator) =
      " " ++ (operator.mark ++ (operator.mark ++ " ")) := by
    cases operator with
    | both => rfl
    | either => rfl
    | negate => exact absurd rfl binary
  have spaced : GuardToken.text (.operator operator) ++ behind =
      " " ++ ((operator.mark ++ operator.mark) ++ (" " ++ behind)) := by
    simp only [spelled, String.append_assoc]
  have blank : isBlankText " " = true := by decide
  have inside : operator.mark ≠ ")" := by cases operator <;> decide
  rw [spaced]
  refine .blank blank (reads_groupFrom operator.mark ?_ inside (reads_binary binary complete)
    (.blank blank tail))
  rw [String.append_assoc]
  exact (stands_mark operator.isMark_mark _).head?

end Elements

/-- Whether tokens are read as an operand of a group that leaves some room, in front of whatever
follows in the group. -/
def ReadsAsOperand (room : Nat) (tokens : Guard) : Prop :=
  ∀ before, isComplete before = false →
    (before = some (.operator .negate) → tokens.head? ≠ some (.operator .negate)) →
      ∀ ⦃others : Guard⦄ ⦃behind rest : String⦄,
        (groupFrom (innerGroup room) tokens.getLast?).Reads behind others rest →
          (groupFrom (innerGroup room) before).Reads (text tokens ++ behind) (tokens ++ others) rest

namespace ReadsAsOperand

variable {room : Nat} {left right inside : Guard}

/-- A written call reads as an operand. -/
theorem call {asked : Call} (written : asked.IsWritten) : ReadsAsOperand room [.call asked] := by
  intro before unfinished _ others behind rest tail
  have named : asked.question.word ≠ ")" := by cases asked.question <;> decide
  have starts : (words (asked.text ++ (behind ++ rest))).head? = some asked.question.word := by
    rw [asked.text_eq, String.append_assoc]
    refine (stands_word asked.question.isWord_word ?_).head?
    rw [String.append_assoc]
    exact breaks_append (by decide) _
  rw [text_cons, text_nil, String.append_empty]
  exact reads_groupFrom _ starts named (reads_call written unfinished) tail

/-- A group is an operand when what it holds can be read in the room that is left. -/
theorem group (nested : ReadsAsOperand room inside)
    (complete : isComplete inside.getLast? = true) :
    ReadsAsOperand (room + 1) (.opening :: inside ++ [.closing]) := by
  intro before unfinished _ others behind rest tail
  have held (later : String) : (innerGroup (room + 1)).Reads (text inside) inside
      (")" ++ later) := by
    have ended := nested none rfl (by simp) (reads_groupFrom_end complete later)
    rw [String.append_empty, List.append_nil] at ended
    rwa [innerGroup, readGroup_eq]
  have spelled : text (.opening :: inside ++ [.closing]) = "(" ++ (text inside ++ ")") := by
    rw [List.cons_append, text_cons, text_append]
    rfl
  rw [spelled]
  refine reads_groupFrom "(" ?_ (by decide) (reads_group unfinished (held _)) tail
  rw [String.append_assoc]
  exact (stands_mark (by decide) _).head?

/-- A negation and an operand that starts with no other one are an operand. -/
theorem negation (operand : ReadsAsOperand room right)
    (complete : isComplete right.getLast? = true)
    (apart : right.head? ≠ some (.operator .negate)) :
    ReadsAsOperand room (.operator .negate :: right) := by
  intro before unfinished single others behind rest tail
  have last : (GuardToken.operator .negate :: right).getLast? = right.getLast? := by
    cases right with
    | nil => cases complete
    | cons token others => rfl
  rw [last] at tail
  have later := operand (some (.operator .negate)) rfl (fun _ => apart) tail
  have element : (readElement (innerGroup room) before "!").Reads "!" [.operator .negate]
      (text right ++ behind ++ rest) :=
    reads_negation unfinished fun same => single same rfl
  have starts : (words ("!" ++ (text right ++ behind ++ rest))).head? = some "!" :=
    (stands_mark (by decide) _).head?
  have whole := reads_groupFrom "!" starts (by decide) element later
  rw [text_cons, String.append_assoc]
  exact whole

/-- Two operands with a binary operator between them are an operand. -/
theorem link {operator : Operator} (binary : operator ≠ .negate)
    (first : ReadsAsOperand room left) (second : ReadsAsOperand room right)
    (complete : isComplete left.getLast? = true) (ends : isComplete right.getLast? = true) :
    ReadsAsOperand room (left ++ .operator operator :: right) := by
  intro before unfinished single others behind rest tail
  have last : (left ++ .operator operator :: right).getLast? = right.getLast? := by
    cases right with
    | nil => cases ends
    | cons token others => simp [List.getLast?_cons]
  have head : (left ++ .operator operator :: right).head? = left.head? := by
    cases left with
    | nil => cases complete
    | cons token others => rfl
  rw [last] at tail
  rw [head] at single
  have later := second (some (.operator operator)) rfl (by simp [binary]) tail
  have whole := first before unfinished single (reads_operator binary complete later)
  simpa only [text_append, text_cons, String.append_assoc, List.append_assoc, List.cons_append]
    using whole

end ReadsAsOperand

namespace Formula

variable {tier : Tier}

/-- A plain part of a guard is read as an operand. -/
theorem readsAsOperand (formula : Formula tier) {room : Nat}
    (plain : IsPlain room formula.tokens) : ReadsAsOperand room formula.tokens := by
  induction formula generalizing room with
  | call asked => exact .call (plain.calls asked (by simp [tokens]))
  | group inside ih =>
    obtain ⟨left, rfl, held⟩ := plain.inside_group
    exact (ih held).group inside.isComplete_tokens
  | plain operand ih => exact ih plain
  | first operand ih => exact ih plain
  | only operand ih => exact ih plain
  | negation operand ih =>
    exact (ih plain.behind_operator).negation operand.isComplete_tokens plain.apart_of_negate
  | both left right leftIh rightIh =>
    exact (leftIh plain.left).link (by decide) (rightIh plain.right.behind_operator)
      left.isComplete_tokens right.isComplete_tokens
  | either left right leftIh rightIh =>
    exact (leftIh plain.left).link (by decide) (rightIh plain.right.behind_operator)
      left.isComplete_tokens right.isComplete_tokens

end Formula

/-- A readable guard is read back up to the parenthesis that closes it. -/
theorem IsReadable.reads {guard : Guard} (readable : guard.IsReadable) (rest : String) :
    read.Reads guard.text guard (")" ++ rest) := by
  obtain ⟨⟨formula, rfl⟩, plain⟩ := readable
  have whole := formula.readsAsOperand plain none rfl (by simp)
    (reads_groupFrom_end formula.isComplete_tokens rest)
  rw [String.append_empty, List.append_nil] at whole
  rwa [read, readGroup_eq]

end Guard

end FormPatch
