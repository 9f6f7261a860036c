import FormPatch.Proofs.Guard.Written
import FormPatch.Proofs.Statement.Parts
import FormPatch.Proofs.Statement.Reading
import FormPatch.Statement.Printer

/-!
# Trees that are written and read

A tree is writable when its expressions are, its guards are readable and its chains nest as deep as
the reader allows. Main statement: in every grammar that reads its own expressions back, the text of
a writable tree is read as that tree without a fault, whatever happens after faults.

The proof follows the tree. A statement is read where no `else` follows it, which is why the law of
a chain asks for what stands behind it.
-/

namespace FormPatch

open Syntax

variable {α : Type}

/-- What the reader asks of the parts of a tree. -/
structure Writable (good : α → Prop) (room : Nat) (payloads : List α) (guards : List Guard)
    (height : Nat) : Prop where
  /-- The expressions can be written. -/
  payloads : ∀ payload ∈ payloads, good payload
  /-- The guards can be read. -/
  guards : ∀ guard ∈ guards, guard.IsReadable
  /-- Chains lie no deeper in each other than there is room for. -/
  height : height ≤ room

/-- A statement that can be written where there is some room. -/
abbrev Statement.Fits (good : α → Prop) (room : Nat) (statement : Statement α) : Prop :=
  Writable good room statement.payloads statement.guards statement.height

/-- Statements that can be written where there is some room. -/
abbrev Statement.AllFit (good : α → Prop) (room : Nat) (statements : List (Statement α)) : Prop :=
  Writable good room (Statement.payloadsAll statements) (Statement.guardsAll statements)
    (Statement.heightAll statements)

/-- What follows a guarded block and can be written where there is some room. -/
abbrev Otherwise.Fits (good : α → Prop) (room : Nat) (otherwise : Otherwise α) : Prop :=
  Writable good room otherwise.payloads otherwise.guards otherwise.height

/-- A tree that can be written and read back. -/
def Statement.IsWritable (good : α → Prop) (statements : List (Statement α)) : Prop :=
  Statement.AllFit good Guard.mostNesting statements

/-- A grammar reads back what it writes for some payloads, and what it writes starts with no word
of a chain or block. -/
structure Grammar.ReadsBack (grammar : Grammar α) (good : α → Prop) : Prop where
  /-- An expression is read back from its written form. -/
  reads : ∀ payload, good payload → ∀ level rest,
    grammar.read.Reads (grammar.write level payload) payload rest
  /-- An expression starts with a word of its own. -/
  starts : ∀ payload, good payload → ∀ level rest,
    ∃ word, (words (grammar.write level payload ++ rest)).head? = some word ∧
      word ≠ "if" ∧ word ≠ "else" ∧ word ≠ "\x7d"

namespace Writable

variable {good : α → Prop} {room height later : Nat} {payloads others : List α}
  {guards behind : List Guard} {guard : Guard}

/-- Parts can be written together when each can. -/
theorem append_iff :
    Writable good room (payloads ++ others) (guards ++ behind) (max height later) ↔
      Writable good room payloads guards height ∧ Writable good room others behind later := by
  constructor
  · rintro ⟨written, readable, fits⟩
    rw [List.forall_mem_append] at written readable
    rw [Nat.max_le] at fits
    exact ⟨⟨written.1, readable.1, fits.1⟩, ⟨written.2, readable.2, fits.2⟩⟩
  · rintro ⟨front, back⟩
    exact ⟨List.forall_mem_append.2 ⟨front.payloads, back.payloads⟩,
      List.forall_mem_append.2 ⟨front.guards, back.guards⟩,
      Nat.max_le.2 ⟨front.height, back.height⟩⟩

/-- A guard joins parts that can be written when it can be read. -/
theorem cons_iff :
    Writable good room payloads (guard :: guards) height ↔
      guard.IsReadable ∧ Writable good room payloads guards height := by
  constructor
  · rintro ⟨written, readable, fits⟩
    rw [List.forall_mem_cons] at readable
    exact ⟨readable.1, ⟨written, readable.2, fits⟩⟩
  · rintro ⟨here, rest⟩
    exact ⟨rest.payloads, List.forall_mem_cons.2 ⟨here, rest.guards⟩, rest.height⟩

/-- A chain takes room from its blocks. -/
theorem deeper (writable : Writable good room payloads guards (height + 1)) :
    ∃ left, room = left + 1 ∧ Writable good left payloads guards height := by
  cases room with
  | zero => exact absurd writable.height (by omega)
  | succ left =>
    exact ⟨left, rfl, writable.payloads, writable.guards, Nat.le_of_succ_le_succ writable.height⟩

end Writable

section Texts

variable (grammar : Grammar α) (level : Nat)

/-- A block as it is written behind its guard. -/
def blockText (body : List (Statement α)) : String :=
  "\x7b" ++ ("\n" ++ (statementsText grammar (level + 1) body ++ (indent level ++ "\x7d")))

/-- A guard in parentheses and the block behind it, as they are written. -/
def branchText (guard : Guard) (body : List (Statement α)) : String :=
  "(" ++ (guard.text ++ (")" ++ (" " ++ blockText grammar level body)))

/-- A chain is written as its first branch and what stands behind it. -/
theorem Statement.text_conditional (guard : Guard) (body : List (Statement α))
    (otherwise : Otherwise α) :
    (Statement.conditional guard body otherwise).text grammar level =
      indent level ++ (("if" ++ (" " ++ (branchText grammar level guard body ++
        otherwise.text grammar level))) ++ "\n") := by
  have opens : "if (" = "if" ++ (" " ++ "(") := rfl
  have closes : ") \x7b\n" = ")" ++ (" " ++ ("\x7b" ++ "\n")) := rfl
  simp only [Statement.text, opens, closes, branchText, blockText, String.append_assoc]

/-- A last block is written behind its else. -/
theorem Otherwise.text_block (body : List (Statement α)) :
    (Otherwise.block body).text grammar level =
      " " ++ ("else" ++ (" " ++ blockText grammar level body)) := by
  have opens : " else \x7b\n" = " " ++ ("else" ++ (" " ++ ("\x7b" ++ "\n"))) := rfl
  simp only [Otherwise.text, opens, blockText, String.append_assoc]

/-- Another branch is written behind its else and its if. -/
theorem Otherwise.text_branch (guard : Guard) (body : List (Statement α))
    (otherwise : Otherwise α) :
    (Otherwise.branch guard body otherwise).text grammar level =
      " " ++ ("else" ++ ((" " ++ ("if" ++ (" " ++ branchText grammar level guard body))) ++
        otherwise.text grammar level)) := by
  have opens : " else if (" = " " ++ ("else" ++ (" " ++ ("if" ++ (" " ++ "(")))) := rfl
  have closes : ") \x7b\n" = ")" ++ (" " ++ ("\x7b" ++ "\n")) := rfl
  simp only [Otherwise.text, opens, closes, branchText, blockText, String.append_assoc]

/-- Indentation is blank. -/
theorem isBlankText_indent : isBlankText (indent level) = true := by
  have blank : Text.isBlank ' ' = true := by decide
  simp [isBlankText, indent, blank]

/-- Behind its indentation a text starts with its first word. -/
theorem head?_words_indent {word rest : String} (stands : Stands word rest) :
    (words (indent level ++ (word ++ rest))).head? = some word := by
  rw [words_blank (isBlankText_indent level), stands.head?]

/-- What follows a block breaks the word of its brace. -/
theorem Otherwise.breaks_text (otherwise : Otherwise α) {rest : String}
    (broken : breaks rest = true) : breaks (otherwise.text grammar level ++ rest) = true := by
  cases otherwise with
  | nothing => rwa [Otherwise.text, String.empty_append]
  | block body =>
    rw [Otherwise.text_block, String.append_assoc]
    exact breaks_append (by decide) _
  | branch guard body otherwise =>
    rw [Otherwise.text_branch, String.append_assoc]
    exact breaks_append (by decide) _

/-- The branches and the last block of a chain make it. -/
theorem Otherwise.ofBranches_branches (otherwise : Otherwise α) :
    .ofBranches otherwise.branches otherwise.last? = otherwise := by
  induction otherwise using Otherwise.branches.induct with
  | case1 => rfl
  | case2 body => rfl
  | case3 guard body otherwise ih => rw [branches, last?, ofBranches, ih]

end Texts

/-- A grammar reads back what it writes when each expression is written behind a word of its own and
read from there. -/
theorem Grammar.ReadsBack.of_words {grammar : Grammar α} {good : α → Prop} {word tail : α → String}
    (write : ∀ level payload,
      grammar.write level payload = indent level ++ (word payload ++ tail payload))
    (stands : ∀ payload rest, Stands (word payload) (tail payload ++ rest))
    (apart : ∀ payload, word payload ≠ "if" ∧ word payload ≠ "else" ∧ word payload ≠ "\x7d")
    (reads : ∀ payload, good payload → ∀ rest,
      grammar.read.Reads (word payload ++ tail payload) payload rest) :
    grammar.ReadsBack good where
  reads payload held level rest := by
    rw [write]
    exact .blank (isBlankText_indent level) (reads payload held rest)
  starts payload _ level rest := by
    refine ⟨word payload, ?_, apart payload⟩
    rw [write, String.append_assoc, String.append_assoc]
    exact head?_words_indent level (stands payload rest)

namespace Statement

variable {grammar : Grammar α} {good : α → Prop} {recovery : Recovery} {level : Nat}

section Words

/-- A statement starts with a word that neither goes on with a chain nor ends a block. -/
theorem starts_text (back : grammar.ReadsBack good) {room : Nat} (statement : Statement α)
    (writable : Fits good room statement) (level : Nat) (rest : String) :
    ∃ word, (words (statement.text grammar level ++ rest)).head? = some word ∧
      word ≠ "else" ∧ word ≠ "\x7d" := by
  cases statement with
  | expression payload =>
    have held : good payload := writable.payloads payload (by simp [payloads])
    obtain ⟨word, starts, _, other, brace⟩ := back.starts payload held level ("\n" ++ rest)
    exact ⟨word, by rwa [text, String.append_assoc], other, brace⟩
  | conditional guard body otherwise =>
    refine ⟨"if", ?_, by decide, by decide⟩
    rw [text_conditional]
    simp only [String.append_assoc]
    exact head?_words_indent level (stands_word (by decide) (breaks_append (by decide) _))

/-- Where no `else` follows statements, none stands in front of them. -/
theorem apart_statementsText (back : grammar.ReadsBack good) {room : Nat}
    (statements : List (Statement α)) (writable : AllFit good room statements) (level : Nat)
    {rest : String} (apart : Apart "else" rest) :
    Apart "else" (statementsText grammar level statements ++ rest) := by
  cases statements with
  | nil => rwa [statementsText, String.empty_append]
  | cons statement others =>
    obtain ⟨word, starts, other, _⟩ := starts_text back statement
      (Writable.append_iff.1 writable).1 level (statementsText grammar level others ++ rest)
    rw [statementsText, String.append_assoc, Apart, starts]
    simpa using other

end Words

section Readers

variable {statement : Tolerant (Statement α)} {progresses : statement.Progresses}
  {block : Tolerant (List (Statement α))} {text rest : String}

/-- Blanks behind a text do not matter. -/
theorem reads_trail {β : Type} {reader : Tolerant β} {value : β} {blanks : String}
    (blank : isBlankText blanks = true) (reads : reader.Reads text value (blanks ++ rest)) :
    reader.Reads (text ++ blanks) value rest := by
  intro cursor left
  rw [String.append_assoc] at left
  obtain ⟨after, ran, left⟩ := reads cursor left
  exact ⟨after, ran, by rwa [words_blank blank] at left⟩

/-- A block ends with its brace. -/
theorem reads_body_nil (broken : breaks rest = true) :
    (body recovery statement progresses).Reads "\x7d" [] rest := by
  intro cursor left
  rw [stands_word (by decide) broken] at left
  exact ⟨cursor.take, run_body_of_brace (Cursor.word_of_words left), by
    rw [Cursor.words_take, left, List.tail_cons]⟩

/-- A block goes on with a statement that does not end it. -/
theorem reads_body_cons {word behind : String} {first : Statement α}
    {others : List (Statement α)}
    (starts : (words (text ++ (behind ++ rest))).head? = some word) (inside : word ≠ "\x7d")
    (reads : statement.Reads text first (behind ++ rest))
    (tail : (body recovery statement progresses).Reads behind others rest) :
    (body recovery statement progresses).Reads (text ++ behind) (first :: others) rest := by
  intro cursor left
  obtain ⟨later, split⟩ : ∃ later, cursor.words = word :: later := by
    rw [← String.append_assoc, ← left] at starts
    exact List.head?_eq_some_iff.1 starts
  have more : cursor.rest ≠ [] := by simp [Cursor.rest_eq_nil, split]
  have attempts : (attempt recovery true statement).Reads text [first] (behind ++ rest) := by
    intro cursor left
    obtain ⟨after, ran, left⟩ := reads cursor left
    exact ⟨after, by simp only [attempt, ran], left⟩
  have whole : (attempt recovery true statement >>= fun front =>
      body recovery statement progresses >>= fun others => pure (front ++ others)).Reads
        (text ++ behind) (first :: others) rest :=
    attempts.bind (tail.last (Tolerant.reads_pure ([first] ++ others) rest))
  obtain ⟨after, ran, left⟩ := whole cursor.look (by rw [Cursor.words_look, left])
  exact ⟨after, by rwa [run_body more (by rwa [Cursor.word_of_words split])], left⟩

/-- A block is read from its text when its statements are read from theirs. -/
theorem reads_readBlock {statements : List (Statement α)}
    (inside : (body recovery statement progresses).Reads
      (statementsText grammar (level + 1) statements ++ (indent level ++ "\x7d")) statements rest) :
    (readBlock recovery statement progresses).Reads (blockText grammar level statements) statements
      rest := by
  have brace : Stands "\x7b" ("\n" ++ (statementsText grammar (level + 1) statements ++
      (indent level ++ "\x7d")) ++ rest) := by
    refine stands_word (by decide) ?_
    rw [String.append_assoc]
    exact breaks_append (by decide) _
  have line : isBlankText "\n" = true := by decide
  exact (Tolerant.reads_ofReader (Reader.reads_expect brace)).bind (.blank line inside)

/-- A branch is read from its text when its block is. -/
theorem reads_readBranch {guard : Guard} {statements : List (Statement α)}
    (readable : guard.IsReadable)
    (inside : block.Reads (blockText grammar level statements) statements rest) :
    (readBranch block).Reads (branchText grammar level guard statements) (guard, statements)
      rest := by
  have blank : isBlankText " " = true := by decide
  have guarded : Guard.read.Reads guard.text guard
      ((")" ++ (" " ++ blockText grammar level statements)) ++ rest) := by
    rw [String.append_assoc]
    exact readable.reads _
  have opens := Reader.reads_expect (stands_mark (by decide : isMark "(" = true)
    (guard.text ++ (")" ++ (" " ++ blockText grammar level statements)) ++ rest))
  have closes := Reader.reads_expect (stands_mark (by decide : isMark ")" = true)
    (" " ++ blockText grammar level statements ++ rest))
  refine (Tolerant.reads_ofReader opens).bind ((Tolerant.reads_ofReader guarded).bind ?_)
  refine (Tolerant.reads_ofReader closes).bind ?_
  exact .blank blank (inside.last (Tolerant.reads_pure _ rest))

/-- After `else`, a block without a guard is the last one. -/
theorem reads_readElse_last {statements : List (Statement α)}
    (inside : block.Reads (blockText grammar level statements) statements rest) :
    (readElse block).Reads (blockText grammar level statements) (.inr statements) rest := by
  have brace : Stands "\x7b" (("\n" ++ (statementsText grammar (level + 1) statements ++
      (indent level ++ "\x7d"))) ++ rest) := by
    refine stands_word (by decide) ?_
    rw [String.append_assoc]
    exact breaks_append (by decide) _
  have apart : Apart "if" (blockText grammar level statements ++ rest) := by
    rw [blockText, String.append_assoc]
    exact apart_of_stands brace (by decide)
  have other := Reader.reads_accept_of_apart (by decide) apart
  exact (Tolerant.reads_ofReader other).ahead (inside.last (Tolerant.reads_pure _ rest))

/-- After `else`, a guarded block stands behind `if`. -/
theorem reads_readElse_branch {guard : Guard} {statements : List (Statement α)}
    (branch : (readBranch block).Reads (branchText grammar level guard statements)
      (guard, statements) rest) :
    (readElse block).Reads ("if" ++ (" " ++ branchText grammar level guard statements))
      (.inl (guard, statements)) rest := by
  have blank : isBlankText " " = true := by decide
  have word : Stands "if" ((" " ++ branchText grammar level guard statements) ++ rest) := by
    refine stands_word (by decide) ?_
    rw [String.append_assoc]
    exact breaks_append (by decide) _
  exact (Tolerant.reads_ofReader (Reader.reads_accept word)).bind
    (.blank blank (branch.last (Tolerant.reads_pure _ rest)))

/-- A chain ends where no `else` follows. -/
theorem reads_branches_nil (apart : Apart "else" rest) :
    (Tolerant.branches "else" (by decide) (readElse block)).Reads "" ([], none) rest := by
  intro cursor left
  rw [String.empty_append] at left
  have other : cursor.word ≠ "else" := Cursor.word_ne_of_words (by decide) (by rwa [left])
  exact ⟨cursor.look, Tolerant.run_branches_of_ne other, by rw [Cursor.words_look, left]⟩

/-- A chain ends with a block that stands behind `else` without a guard. -/
theorem reads_branches_last {last : List (Statement α)} (broken : breaks (text ++ rest) = true)
    (item : (readElse block).Reads text (.inr last) rest) :
    (Tolerant.branches "else" (by decide) (readElse block)).Reads (" " ++ ("else" ++ text))
      ([], some last) rest := by
  have blank : isBlankText " " = true := by decide
  refine .blank blank fun cursor left => ?_
  rw [String.append_assoc, stands_word (by decide) broken] at left
  rw [Tolerant.run_branches_of_word (Cursor.word_of_words left)]
  exact item.last (Tolerant.reads_pure ([], some last) rest) cursor.take
    (by rw [Cursor.words_take, left, List.tail_cons])

/-- A chain goes on with a guarded block behind `else` and what follows it. -/
theorem reads_branches_cons {value : Guard × List (Statement α)}
    {others : List (Guard × List (Statement α))} {last : Option (List (Statement α))}
    {behind : String} (broken : breaks (text ++ behind ++ rest) = true)
    (item : (readElse block).Reads text (.inl value) (behind ++ rest))
    (tail : (Tolerant.branches "else" (by decide) (readElse block)).Reads behind (others, last)
      rest) :
    (Tolerant.branches "else" (by decide) (readElse block)).Reads
      (" " ++ ("else" ++ (text ++ behind))) (value :: others, last) rest := by
  have blank : isBlankText " " = true := by decide
  refine .blank blank fun cursor left => ?_
  rw [String.append_assoc, stands_word (by decide) broken] at left
  rw [Tolerant.run_branches_of_word (Cursor.word_of_words left)]
  exact item.bind (tail.last (Tolerant.reads_pure (value :: others, last) rest)) cursor.take
    (by rw [Cursor.words_take, left, List.tail_cons])

/-- A chain is read by its first branch and what follows it. -/
theorem reads_readChain {guard : Guard} {statements : List (Statement α)}
    {otherwise : Otherwise α}
    (first : (readBranch block).Reads (branchText grammar level guard statements)
      (guard, statements) (otherwise.text grammar level ++ rest))
    (others : (Tolerant.branches "else" (by decide) (readElse block)).Reads
      (otherwise.text grammar level) (otherwise.branches, otherwise.last?) rest) :
    (readChain block).Reads ("if" ++ (" " ++ (branchText grammar level guard statements ++
      otherwise.text grammar level))) (.conditional guard statements otherwise) rest := by
  have blank : isBlankText " " = true := by decide
  have word : Stands "if" ((" " ++ (branchText grammar level guard statements ++
      otherwise.text grammar level)) ++ rest) := by
    refine stands_word (by decide) ?_
    rw [String.append_assoc]
    exact breaks_append (by decide) _
  refine (Tolerant.reads_ofReader (Reader.reads_expect word)).bind (.blank blank ?_)
  refine first.bind (others.last ?_)
  show Tolerant.Reads (pure (Statement.conditional guard statements
    (.ofBranches otherwise.branches otherwise.last?))) "" _ rest
  rw [otherwise.ofBranches_branches]
  exact Tolerant.reads_pure _ rest

/-- A text that starts with an if is read as a chain. -/
theorem reads_readWith_chain {chain : Tolerant (Statement α)} {value : Statement α}
    (starts : (words (text ++ rest)).head? = some "if") (reads : chain.Reads text value rest) :
    (readWith grammar chain).Reads text value rest := by
  intro cursor left
  obtain ⟨later, split⟩ := List.head?_eq_some_iff.1 (left ▸ starts)
  obtain ⟨after, ran, left⟩ := reads cursor.look (by rw [Cursor.words_look, left])
  exact ⟨after, by simpa only [readWith, Cursor.word_of_words split, ↓reduceIte] using ran, left⟩

/-- A text that does not start with an if is read as an expression. -/
theorem reads_readWith_expression {chain : Tolerant (Statement α)} {payload : α} {word : String}
    (starts : (words (text ++ rest)).head? = some word) (other : word ≠ "if")
    (reads : grammar.read.Reads text payload rest) :
    (readWith grammar chain).Reads text (.expression payload) rest := by
  intro cursor left
  obtain ⟨later, split⟩ := List.head?_eq_some_iff.1 (left ▸ starts)
  obtain ⟨after, ran, left⟩ := reads cursor.look (by rw [Cursor.words_look, left])
  refine ⟨after, ?_, left⟩
  simp only [readWith, Cursor.word_of_words split, if_neg other, ran]
  rfl

end Readers

mutual

/-- A writable statement is read back where no `else` follows. -/
theorem reads_text (back : grammar.ReadsBack good) (statement : Statement α) (room : Nat)
    (writable : Fits good room statement) (level : Nat) (rest : String)
    (apart : Apart "else" rest) :
    (readNested grammar recovery room).1.Reads (statement.text grammar level) statement rest := by
  cases statement with
  | expression payload =>
    have held : good payload := writable.payloads payload (by simp [payloads])
    obtain ⟨word, starts, other, _⟩ := back.starts payload held level ("\n" ++ rest)
    have line : isBlankText "\n" = true := by decide
    have reads := back.reads payload held level ("\n" ++ rest)
    rw [text]
    cases room <;> exact reads_trail line (reads_readWith_expression starts other reads)
  | conditional guard body otherwise =>
    obtain ⟨left, rfl, deeper⟩ := writable.deeper
    obtain ⟨readable, parts⟩ := Writable.cons_iff.1 deeper
    obtain ⟨inside, behind⟩ := Writable.append_iff.1 parts
    have line : isBlankText "\n" = true := by decide
    have ends : Apart "else" ("\n" ++ rest) := by rwa [Apart, words_blank line]
    have broken : breaks (otherwise.text grammar level ++ ("\n" ++ rest)) = true :=
      otherwise.breaks_text grammar level (breaks_append (by decide) rest)
    have block := reads_readBlock (reads_statementsText back body left inside level _ broken)
    have chain := reads_readChain (reads_readBranch readable block)
      (reads_otherwise back otherwise left behind level ("\n" ++ rest) ends
        (breaks_append (by decide) rest))
    rw [text_conditional]
    refine .blank (isBlankText_indent level) (reads_trail line (reads_readWith_chain ?_ chain))
    simp only [String.append_assoc]
    exact (stands_word (by decide) (breaks_append (by decide) _)).head?

/-- Writable statements are read back up to and with the brace that ends their block. -/
theorem reads_statementsText (back : grammar.ReadsBack good) (statements : List (Statement α))
    (room : Nat) (writable : AllFit good room statements) (level : Nat) (rest : String)
    (broken : breaks rest = true) :
    (body recovery (readNested grammar recovery room).1 (readNested grammar recovery room).2).Reads
      (statementsText grammar (level + 1) statements ++ (indent level ++ "\x7d")) statements
        rest := by
  have ends : (body recovery (readNested grammar recovery room).1
      (readNested grammar recovery room).2).Reads (indent level ++ "\x7d") [] rest :=
    .blank (isBlankText_indent level) (reads_body_nil broken)
  cases statements with
  | nil => rwa [statementsText, String.empty_append]
  | cons statement others =>
    obtain ⟨first, later⟩ := Writable.append_iff.1 writable
    have brace : Apart "else" (indent level ++ "\x7d" ++ rest) := by
      rw [String.append_assoc, Apart, words_blank (isBlankText_indent level)]
      exact apart_of_stands (stands_word (by decide) broken) (by decide)
    have apart := apart_statementsText back others later (level + 1) brace
    obtain ⟨word, starts, _, inside⟩ := starts_text back statement first (level + 1)
      (statementsText grammar (level + 1) others ++ (indent level ++ "\x7d") ++ rest)
    rw [statementsText, String.append_assoc]
    refine reads_body_cons starts inside ?_
      (reads_statementsText back others room later level rest broken)
    refine reads_text back statement room first (level + 1) _ ?_
    rwa [String.append_assoc]

/-- The branches of a writable chain are read back where no `else` follows. -/
theorem reads_otherwise (back : grammar.ReadsBack good) (otherwise : Otherwise α) (room : Nat)
    (writable : otherwise.Fits good room) (level : Nat) (rest : String)
    (apart : Apart "else" rest) (broken : breaks rest = true) :
    (Tolerant.branches "else" (by decide) (readElse (readBlock recovery
      (readNested grammar recovery room).1 (readNested grammar recovery room).2))).Reads
        (otherwise.text grammar level) (otherwise.branches, otherwise.last?) rest := by
  cases otherwise with
  | nothing => exact reads_branches_nil apart
  | block body =>
    have block := reads_readBlock (reads_statementsText back body room writable level _ broken)
    rw [Otherwise.text_block]
    have blank : isBlankText " " = true := by decide
    refine reads_branches_last ?_ (.blank blank (reads_readElse_last block))
    rw [String.append_assoc]
    exact breaks_append (by decide) _
  | branch guard body otherwise =>
    obtain ⟨readable, parts⟩ := Writable.cons_iff.1 writable
    obtain ⟨inside, behind⟩ := Writable.append_iff.1 parts
    have block := reads_readBlock (reads_statementsText back body room inside level _
      (otherwise.breaks_text grammar level broken))
    have others := reads_otherwise back otherwise room behind level rest apart broken
    have blank : isBlankText " " = true := by decide
    have first := reads_readElse_branch (reads_readBranch readable block)
    rw [Otherwise.text_branch]
    refine reads_branches_cons ?_ (.blank blank first) others
    rw [String.append_assoc, String.append_assoc]
    exact breaks_append (by decide) _

end

end Statement

/-- The text of a writable tree is read as that tree, without a fault. -/
theorem Grammar.ReadsBack.ofText {grammar : Grammar α} {good : α → Prop}
    (back : grammar.ReadsBack good) (recovery : Recovery) (statements : List (Statement α))
    (writable : Statement.IsWritable good statements) :
    Reading.ofText grammar recovery (grammar.fileText statements) = ⟨statements, []⟩ := by
  have reading : ∀ cursor : Cursor, cursor.words = words (statementsText grammar 0 statements) →
      Reading.ofCursor grammar recovery cursor = ⟨statements, []⟩ := by
    induction statements with
    | nil =>
      intro cursor left
      exact Reading.ofCursor_end (Cursor.rest_eq_nil.2 (left.trans words_empty))
    | cons statement others ih =>
      obtain ⟨first, later⟩ := Writable.append_iff.1 writable
      intro cursor left
      have apart : Apart "else" (statementsText grammar 0 others) := by
        have ends : Apart "else" "" := by simp [Apart, words_empty]
        have whole := Statement.apart_statementsText back others later 0 ends
        rwa [String.append_empty] at whole
      obtain ⟨word, starts, _⟩ := Statement.starts_text back statement first 0
        (statementsText grammar 0 others)
      have more : cursor.rest ≠ [] := by
        intro ended
        rw [statementsText, Cursor.rest_eq_nil.1 ended] at left
        simp [← left] at starts
      obtain ⟨after, ran, left⟩ := Statement.reads_text back statement _ first 0 _ apart cursor left
      rw [Reading.ofCursor_read more ran, ih later after left]
      rfl
  exact reading _ rfl

end FormPatch
