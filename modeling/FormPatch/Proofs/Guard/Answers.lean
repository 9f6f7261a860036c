import FormPatch.Proofs.Guard.Written

/-!
# Guards that are read can be read again

Whatever guard is read from a text is readable: that it derives from the grammar is known, and each
element that is read keeps what is added behind it plain.
-/

namespace FormPatch.Guard

open Syntax Syntax.Reader

section Double

variable {token : GuardToken} {front behind : Guard}

/-- A token puts two negations behind each other only as the first of them. -/
theorem singly_cons (later : ¬doubleNegation <:+: behind)
    (apart : token = .operator .negate → behind.head? ≠ some (.operator .negate)) :
    ¬doubleNegation <:+: token :: behind := by
  rw [List.infix_cons_iff, not_or]
  refine ⟨?_, later⟩
  rintro ⟨rest, joined⟩
  obtain ⟨rfl, rfl⟩ := List.cons.inj joined
  exact apart rfl rfl

/-- A parenthesis that closes a group keeps negations apart. -/
theorem singly_append (first : ¬doubleNegation <:+: front) (later : ¬doubleNegation <:+: behind) :
    ¬doubleNegation <:+: front ++ .closing :: behind := by
  induction front with
  | nil => exact singly_cons later (by simp)
  | cons token rest ih =>
    have inner : ¬doubleNegation <:+: rest := fun double =>
      first (double.trans (List.suffix_cons _ _).isInfix)
    refine singly_cons (ih inner) ?_
    rintro rfl next
    cases rest with
    | nil => simp at next
    | cons second others =>
      obtain rfl := Option.some.inj next
      exact first ⟨[], others, rfl⟩

end Double

namespace IsPlain

variable {room : Nat} {others : Guard}

/-- No tokens are plain. -/
theorem nil : IsPlain room [] :=
  ⟨by simp, by simp [doubleNegation], by simp [nestsWithin]⟩

/-- A written call may stand in front of plain tokens. -/
theorem cons_call {asked : Call} (written : asked.IsWritten) (plain : IsPlain room others) :
    IsPlain room (.call asked :: others) := by
  refine ⟨?_, singly_cons plain.singly (by simp), by simpa [nestsWithin] using plain.nests⟩
  intro other member
  rcases List.mem_cons.1 member with same | member
  · cases same
    exact written
  · exact plain.calls other member

/-- An operator may stand in front of plain tokens, unless it is a negation and they start with one.
-/
theorem cons_operator {operator : Operator} (plain : IsPlain room others)
    (apart : operator = .negate → others.head? ≠ some (.operator .negate)) :
    IsPlain room (.operator operator :: others) := by
  refine ⟨?_, singly_cons plain.singly ?_, by simpa [nestsWithin] using plain.nests⟩
  · simpa using plain.calls
  · intro same
    exact apart (by simpa using same)

/-- A group in front takes no room from what follows it. -/
theorem append_group {formula : Formula .disjunction} (held : IsPlain room formula.tokens)
    (plain : IsPlain (room + 1) others) :
    IsPlain (room + 1) (.opening :: formula.tokens ++ [.closing] ++ others) := by
  rw [List.append_assoc, List.cons_append, List.singleton_append]
  refine ⟨?_, singly_cons (singly_append held.singly plain.singly) (by simp), ?_⟩
  · intro asked member
    have cases : .call asked ∈ formula.tokens ∨ .call asked ∈ others := by simpa using member
    exact cases.elim (held.calls asked) (plain.calls asked)
  · rw [nestsWithin, formula.nestsWithin_append, held.nests, nestsWithin, plain.nests]
    rfl

end IsPlain

/-- What an element of a group does to it, given the element before it. -/
structure Adds (room : Nat) (before : Option GuardToken) (tokens : Guard) : Prop where
  /-- An element has tokens. -/
  some : tokens ≠ []
  /-- No negation is put behind another one. -/
  apart : before = .some (.operator .negate) → tokens.head? ≠ .some (.operator .negate)
  /-- What can follow the element stays plain with the element in front. -/
  plain : ∀ others, IsPlain room others →
    (tokens.getLast? = .some (.operator .negate) → others.head? ≠ .some (.operator .negate)) →
      IsPlain room (tokens ++ others)

section Elements

variable {room : Nat} {before : Option GuardToken}

/-- Every call that is read is one that can be written. -/
theorem answers_readCall (question : Question) : (readCall question).Answers Call.IsWritten := by
  refine .after fun _ => ?_
  cases question with
  | isPluginExists =>
    exact answers_string.bind fun text quotable => .after fun _ => answers_pure quotable
  | isFormExists =>
    exact answers_form.bind fun reference valid => .after fun _ => answers_pure valid

/-- An operator may be added behind anything, a negation not behind another one. -/
theorem adds_operator {operator : Operator} (single : operator = .negate →
    before ≠ some (.operator .negate)) : Adds room before [.operator operator] := by
  refine ⟨List.cons_ne_nil _ _, ?_, fun others plain apart => plain.cons_operator ?_⟩
  · intro behind next
    have same : operator = .negate := by simpa using next
    exact single same behind
  · rintro rfl
    exact apart rfl

/-- What the reader of a binary operator adds may be added. -/
theorem answers_readBinary (mark : String) {operator : Operator} (binary : operator ≠ .negate) :
    (readBinary mark operator before).Answers (Adds room before) :=
  .after fun _ => .after fun _ => .after fun _ => .after fun _ =>
    answers_pure (adds_operator fun same => absurd same binary)

/-- What the reader of a negation adds may be added. -/
theorem answers_readNegation : (readNegation before).Answers (Adds room before) := by
  refine .after fun _ => (answers_require _ _).bind fun _ single => .after fun _ => ?_
  exact answers_pure (adds_operator fun _ => by simpa using single)

/-- What is read inside a group is a plain formula, given that this is so one level further down. -/
theorem answers_innerGroup_succ {room : Nat}
    (nested : (readGroup room).Answers (IsPlain room)) :
    (innerGroup (room + 1)).Answers fun inside => IsFormula inside ∧ IsPlain room inside :=
  fun cursor inside after lexed ran =>
    ⟨readGroup_isFormula room cursor inside after ran, nested cursor inside after lexed ran⟩

/-- Each element that is read adds to a group what keeps it plain. -/
theorem answers_readElement (word : String)
    (nested : ∀ left, room = left + 1 → (readGroup left).Answers (IsPlain left)) :
    (readElement (innerGroup room) before word).Answers (Adds room before) := by
  unfold readElement
  split
  · refine .after fun _ => .after fun _ => ?_
    cases room with
    | zero =>
      have never : (innerGroup 0).Answers fun _ => False := answers_fail _
      exact never.bind fun _ impossible => impossible.elim
    | succ left =>
      refine (answers_innerGroup_succ (nested left rfl)).bind fun inside held => .after fun _ => ?_
      obtain ⟨⟨formula, rfl⟩, held⟩ := held
      exact answers_pure ⟨by simp, by simp, fun others plain _ => held.append_group plain⟩
  · split
    · exact answers_readBinary "&" (by decide)
    · split
      · exact answers_readBinary "|" (by decide)
      · split
        · exact answers_readNegation
        · cases Question.ofWord? word with
          | none => exact answers_fail _
          | some question =>
            refine .after fun _ => .after fun _ => (answers_readCall question).bind ?_
            intro call written
            exact answers_pure ⟨by simp, by simp, fun others plain _ => plain.cons_call written⟩

/-- At the end of a group nothing is added. -/
theorem answers_readEnd {places : Cursor → Prop} : (readEnd before).AnswersFrom places (· = []) := by
  cases before with
  | none => exact answers_fail _
  | some token =>
    cases token with
    | call asked => exact answers_pure rfl
    | operator operator => exact answers_fail _
    | opening => exact answers_pure rfl
    | closing => exact answers_pure rfl

end Elements

/-- The rest of a group is plain, and keeps negations apart from the element before it. -/
theorem answers_runGroup {room : Nat}
    (nested : ∀ left, room = left + 1 → (readGroup left).Answers (IsPlain left))
    (before : Option GuardToken) (cursor : Cursor) (lexed : cursor.IsLexed) (tokens : Guard)
    (after : Cursor) (ran : runGroup (innerGroup room) before cursor = .read tokens after) :
    IsPlain room tokens ∧
      (before = some (.operator .negate) → tokens.head? ≠ some (.operator .negate)) := by
  fun_induction runGroup (innerGroup room) before cursor generalizing tokens after with
  | case1 before cursor empty => simp at ran
  | case2 before cursor more closes =>
    obtain rfl := answers_readEnd cursor.look tokens after (Cursor.Inherited.look lexed) ran
    exact ⟨.nil, by simp⟩
  | case3 before cursor more inside error later element => simp at ran
  | case4 before cursor more inside element later read _ ih =>
    have looked : cursor.look.IsLexed := Cursor.Inherited.look lexed
    have adds := answers_readElement cursor.word nested cursor.look element later looked read
    cases inner : runGroup (innerGroup room) element.getLast? later with
    | failed error stopped => simp [inner, Outcome.map] at ran
    | read others stopped =>
      rw [inner, Outcome.map, Outcome.read.injEq] at ran
      obtain ⟨rfl, rfl⟩ := ran
      obtain ⟨plain, apart⟩ := ih (inherited_after looked read) others stopped inner
      refine ⟨adds.plain others plain apart, fun behind => ?_⟩
      have front : (element ++ others).head? = element.head? := by
        cases element with
        | nil => exact absurd rfl adds.some
        | cons token rest => rfl
      rw [front]
      exact adds.apart behind

/-- Whatever room there is, a group that is read is plain. -/
theorem answers_readGroup (room : Nat) : (readGroup room).Answers (IsPlain room) := by
  induction room with
  | zero =>
    intro cursor guard after lexed ran
    rw [readGroup_eq] at ran
    exact (answers_runGroup (fun left taken => by omega) none cursor lexed guard after ran).1
  | succ room ih =>
    intro cursor guard after lexed ran
    have nested (left : Nat) (taken : room + 1 = left + 1) :
        (readGroup left).Answers (IsPlain left) := by
      obtain rfl := Nat.succ.inj taken
      exact ih
    rw [readGroup_eq] at ran
    exact (answers_runGroup nested none cursor lexed guard after ran).1

/-- Every guard that is read from a text is readable. -/
theorem answers_read : read.Answers IsReadable :=
  fun cursor guard after lexed ran =>
    ⟨readGroup_isFormula mostNesting cursor guard after ran,
      answers_readGroup mostNesting cursor guard after lexed ran⟩

end FormPatch.Guard
