import FormPatch.Proofs.Statement.Braces
import FormPatch.Proofs.Statement.Layout

/-!
# Braces and blocks

Along a layout, an account is kept of the braces that have been opened and not closed. Statements
that were read open and close the braces of their blocks, so the account differs from the number of
blocks around an expression by what the gaps in front of it have opened and closed. An expression
lies in as many blocks as there are open braces in front of it exactly when those gaps, taken
together, open as many braces as they close.
-/

namespace FormPatch

open Syntax Syntax.Tolerant

variable {α : Type}

/-- What a mark that is no statement opens. -/
def Mark.openBraces : Mark α → Int
  | expression _ _ => 0
  | gap tokens => FormPatch.openBraces tokens

/-- How many more braces the gaps among some marks open than they close. -/
def straying : List (Nat × Mark α) → Int
  | [] => 0
  | mark :: marks => mark.2.openBraces + straying marks

/-- Marks behind each other stray by what both do. -/
theorem straying_append (front behind : List (Nat × Mark α)) :
    straying (front ++ behind) = straying front + straying behind := by
  induction front with
  | nil => rw [List.nil_append, straying, Int.zero_add]
  | cons mark front ih => rw [List.cons_append, straying, straying, ih, Int.add_assoc]

/-- Whether an expression is read where it is said to start, within a text. -/
def Grammar.ReadsAt (grammar : Grammar α) (text : List Token) (payload : α)
    (rest : List Token) : Prop :=
  rest <:+ text ∧ ∃ shown after, grammar.read.run ⟨rest, shown⟩ = .read payload after

section Account

variable (grammar : Grammar α) (text : List Token)

/-- Whether the place and the depth of each mark agree with an account of braces: the braces that
the text behind a place opens, and those that are open there. Only gaps change the account. -/
def Agrees : Int → List (Nat × Mark α) → Prop
  | _, [] => True
  | account, (depth, .expression payload rest) :: marks =>
    (grammar.ReadsAt text payload rest ∧ account = openBraces rest + depth) ∧ Agrees account marks
  | account, (_, .gap tokens) :: marks => Agrees (account - openBraces tokens) marks

/-- Marks that agree with the account before them and leave the account behind them. -/
structure Accounts (before : Int) (marks : List (Nat × Mark α)) (after : Int) : Prop where
  /-- The marks agree. -/
  agrees : Agrees grammar text before marks
  /-- The account that is left. -/
  left : after = before - straying marks

variable {grammar text}

/-- Marks agree with an account when those behind agree with what those in front leave of it. -/
theorem agrees_append {account : Int} {front behind : List (Nat × Mark α)}
    (first : Agrees grammar text account front)
    (second : Agrees grammar text (account - straying front) behind) :
    Agrees grammar text account (front ++ behind) := by
  induction front generalizing account with
  | nil => simpa [straying] using second
  | cons mark front ih =>
    obtain ⟨depth, place⟩ := mark
    cases place with
    | expression payload rest =>
      refine ⟨first.1, ih first.2 ?_⟩
      simpa [straying, Mark.openBraces] using second
    | gap tokens =>
      refine ih first ?_
      have same : account - straying ((depth, .gap tokens) :: front) =
          account - openBraces tokens - straying front := by
        simp only [straying, Mark.openBraces]
        omega
      rwa [← same]

/-- Without marks an account stays. -/
theorem accounts_nil (account : Int) : Accounts grammar text account [] account :=
  ⟨trivial, by simp [straying]⟩

/-- Accounts that follow each other join. -/
theorem Accounts.append {before middle after : Int} {front behind : List (Nat × Mark α)}
    (first : Accounts grammar text before front middle)
    (second : Accounts grammar text middle behind after) :
    Accounts grammar text before (front ++ behind) after := by
  constructor
  · refine agrees_append first.agrees ?_
    rw [← first.left]
    exact second.agrees
  · rw [second.left, first.left, straying_append]
    omega

/-- Where marks agree with an account, the gaps in front of an expression account for what its
depth and its place leave open. -/
theorem Agrees.at {account : Int} {front behind : List (Nat × Mark α)} {depth : Nat} {payload : α}
    {rest : List Token}
    (agrees : Agrees grammar text account (front ++ (depth, .expression payload rest) :: behind)) :
    grammar.ReadsAt text payload rest ∧ account - straying front = openBraces rest + depth := by
  induction front generalizing account with
  | nil =>
    obtain ⟨reads, same⟩ := agrees.1
    exact ⟨reads, by simpa [straying] using same⟩
  | cons mark front ih =>
    obtain ⟨depth', place⟩ := mark
    cases place with
    | expression payload' rest' =>
      have deeper := ih agrees.2
      simpa [straying, Mark.openBraces] using deeper
    | gap tokens =>
      obtain ⟨reads, same⟩ := ih agrees
      refine ⟨reads, ?_⟩
      simp only [straying, Mark.openBraces] at same ⊢
      omega

end Account

/-- A reader keeps the account of a text when the marks of each of its values agree with it, from
a number of open braces in front of the value to one behind it. -/
def Syntax.Tolerant.KeepsAccount {β : Type} (grammar : Grammar α) (text : List Token)
    (opened : Int) (marks : β → List (Nat × Mark α)) (closed : Int) (reader : Tolerant β) : Prop :=
  ∀ cursor faults value after, cursor.rest <:+ text →
    reader.run cursor = ⟨faults, .read value after⟩ →
      Accounts grammar text (openBraces cursor.rest + opened) (marks value)
        (openBraces after.rest + closed)

section Keeping

variable {β γ : Type} {grammar : Grammar α} {text : List Token} {opened closed : Int}

/-- What is read in front without a brace does not change the account. -/
theorem Syntax.Tolerant.KeepsAccount.after {reader : Reader β} {next : β → Tolerant γ}
    {marks : γ → List (Nat × Mark α)} (braces : reader.KeepsBraces)
    (keeps : ∀ value, (next value).KeepsAccount grammar text opened marks closed) :
    (ofReader reader >>= next).KeepsAccount grammar text opened marks closed := by
  intro cursor faults value after within ran
  obtain ⟨ahead, found, middle, behind, head, tail, rfl⟩ := bind_eq_read.1 ran
  obtain ⟨first, rfl⟩ := ofReader_eq_read.1 head
  have kept := reader.suffix cursor
  rw [first, Outcome.cursor_read] at kept
  rw [braces cursor found middle first]
  exact keeps found middle behind value after (kept.trans within) tail

/-- A value that is only changed keeps its account when it keeps its marks. -/
theorem Syntax.Tolerant.KeepsAccount.map {reader : Tolerant β} {change : β → γ}
    {marks : β → List (Nat × Mark α)} {goal : γ → List (Nat × Mark α)}
    (keeps : reader.KeepsAccount grammar text opened marks closed)
    (same : ∀ value, goal (change value) = marks value) :
    (reader >>= fun value => pure (change value)).KeepsAccount grammar text opened goal closed := by
  intro cursor faults value after within ran
  obtain ⟨ahead, found, middle, behind, head, tail, rfl⟩ := bind_eq_read.1 ran
  obtain ⟨changed, _⟩ := ofReader_eq_read.1 tail
  obtain ⟨rfl, rfl⟩ := Reader.pure_eq_read.1 changed
  rw [same]
  exact keeps cursor ahead found middle within head

end Keeping

namespace Statement

variable {grammar : Grammar α} {text : List Token} {depth : Nat}

/-- A gap changes the account by its own braces. -/
theorem accounts_readOrGap {statement : Tolerant (Statement (Mark α))} (inBlock : Bool)
    (keeps : statement.KeepsAccount grammar text depth (nested depth) depth) :
    (readOrGap inBlock statement).KeepsAccount grammar text depth (nested depth) depth := by
  intro cursor faults value after within ran
  simp only [readOrGap, Passage.mk.injEq, Outcome.read.injEq] at ran
  obtain ⟨_, rfl, rfl⟩ := ran
  have kept := statement.suffix cursor
  simp only [settle]
  cases here : statement.run cursor with
  | mk ahead outcome =>
    rw [here] at kept
    cases outcome with
    | read first next => exact keeps cursor ahead first next within here
    | failed error next =>
      have left : (next.recover inBlock).rest <:+ cursor.rest :=
        (next.recover_suffix inBlock).trans kept
      have whole := congrArg openBraces (inFront_append left)
      rw [openBraces_append] at whole
      refine ⟨trivial, ?_⟩
      simp only [nested, straying, Mark.openBraces]
      omega

section Body

variable {layout : Tolerant (Statement (Mark α))} {progresses : layout.Progresses}

/-- The closing brace of a block leads out of it. -/
theorem accounts_body
    (keeps : layout.KeepsAccount grammar text (depth + 1 : Nat) (nested (depth + 1))
      (depth + 1 : Nat)) :
    (body .abort layout progresses).KeepsAccount grammar text (depth + 1 : Nat)
      (nestedAll (depth + 1)) depth := by
  intro cursor
  induction measured : cursor.rest.length using Nat.strongRecOn generalizing cursor with
  | ind length ih =>
    intro faults value after within ran
    have more := needsToken_body cursor faults value after ran
    by_cases closes : cursor.word = "\x7d"
    · rw [run_body_of_brace closes, Passage.mk.injEq, Outcome.read.injEq] at ran
      obtain ⟨_, rfl, rfl⟩ := ran
      have brace : braceOf "\x7d" = -1 := by decide
      have same : openBraces cursor.rest + (depth + 1 : Nat) =
          openBraces cursor.take.rest + depth := by
        rw [openBraces_take, closes, brace]
        omega
      rw [same]
      exact accounts_nil _
    · rw [run_body more closes] at ran
      obtain ⟨ahead, front, middle, behind, head, tail, rfl⟩ := bind_eq_read.1 ran
      obtain ⟨inner, others, last, none, rest, done, rfl⟩ := bind_eq_read.1 tail
      obtain ⟨joined, rfl⟩ := ofReader_eq_read.1 done
      obtain ⟨rfl, rfl⟩ := Reader.pure_eq_read.1 joined
      have shorter : middle.rest.length < length :=
        measured ▸ length_attempt_lt progresses more head
      have kept : middle.rest <:+ cursor.rest := by
        have left := (attempt .abort true layout).suffix cursor.look
        rwa [head, Cursor.rest_look] at left
      have first : Accounts grammar text (openBraces cursor.rest + (depth + 1 : Nat))
          (nestedAll (depth + 1) front) (openBraces middle.rest + (depth + 1 : Nat)) := by
        obtain ⟨statement, found, rfl⟩ := attempt_eq_read head
        have whole : cursor.look.rest <:+ text := by rwa [Cursor.rest_look]
        have alone := keeps cursor.look ahead statement middle whole found
        rw [Cursor.rest_look] at alone
        rwa [nestedAll, nestedAll, List.append_nil]
      rw [nestedAll_append]
      exact first.append (ih _ shorter middle rfl inner others last (kept.trans within) rest)

/-- The braces of a block cancel. -/
theorem accounts_readBlock
    (keeps : layout.KeepsAccount grammar text (depth + 1 : Nat) (nested (depth + 1))
      (depth + 1 : Nat)) :
    (readBlock .abort layout progresses).KeepsAccount grammar text depth (nestedAll (depth + 1))
      depth := by
  intro cursor faults value after within ran
  obtain ⟨ahead, _, middle, behind, head, tail, rfl⟩ := bind_eq_read.1 ran
  obtain ⟨opened, rfl⟩ := ofReader_eq_read.1 head
  obtain ⟨opens, rfl⟩ := Reader.expect_eq_read.1 opened
  have brace : braceOf "\x7b" = 1 := by decide
  have same : openBraces cursor.rest + depth = openBraces cursor.take.rest + (depth + 1 : Nat) := by
    rw [openBraces_take, opens, brace]
    omega
  rw [same]
  exact accounts_body keeps cursor.take behind value after (cursor.take_suffix.trans within) tail

end Body

section Chain

variable {block : Tolerant (List (Statement (Mark α)))}

/-- A guard has no braces, so a guarded block changes the account as its block does. -/
theorem accounts_readBranch
    (keeps : block.KeepsAccount grammar text depth (nestedAll (depth + 1)) depth) :
    (readBranch block).KeepsAccount grammar text depth
      (fun branch => nestedAll (depth + 1) branch.2) depth := by
  refine .after (Reader.keepsBraces_expect (by decide) (by decide)) fun _ => ?_
  refine .after Guard.keepsBraces_read fun guard => ?_
  refine .after (Reader.keepsBraces_expect (by decide) (by decide)) fun _ => ?_
  exact keeps.map fun _ => rfl

/-- The marks of a block behind `else`. -/
def branchMarks (depth : Nat) :
    (Guard × List (Statement (Mark α))) ⊕ List (Statement (Mark α)) → List (Nat × Mark α)
  | .inl branch => nestedAll (depth + 1) branch.2
  | .inr body => nestedAll (depth + 1) body

/-- What stands behind an else keeps the account when its block does. -/
theorem accounts_readElse
    (keeps : block.KeepsAccount grammar text depth (nestedAll (depth + 1)) depth) :
    (readElse block).KeepsAccount grammar text depth (branchMarks depth) depth := by
  refine .after (Reader.keepsBraces_accept (by decide) (by decide)) fun found => ?_
  cases found with
  | true => exact (accounts_readBranch keeps).map fun _ => rfl
  | false => exact keeps.map fun _ => rfl

/-- A chain changes the account as its blocks do. -/
theorem accounts_branches
    {item : Tolerant ((Guard × List (Statement (Mark α))) ⊕ List (Statement (Mark α)))}
    {named : "else" ≠ ""} (keeps : item.KeepsAccount grammar text depth (branchMarks depth) depth) :
    (branches "else" named item).KeepsAccount grammar text depth
      (fun found => Otherwise.nested depth (.ofBranches found.1 found.2)) depth := by
  intro cursor
  induction measured : cursor.rest.length using Nat.strongRecOn generalizing cursor with
  | ind length ih =>
    intro faults value after within ran
    by_cases here : cursor.word = "else"
    · have more := Cursor.rest_ne_nil_of_word named here
      have braces : openBraces cursor.rest = openBraces cursor.take.rest := by
        rw [openBraces_take, here, braceOf_eq_zero (by decide) (by decide), Int.zero_add]
      rw [run_branches_of_word here] at ran
      obtain ⟨ahead, branch, place, behind, head, tail, rfl⟩ := bind_eq_read.1 ran
      have within' : cursor.take.rest <:+ text := cursor.take_suffix.trans within
      have first := keeps cursor.take ahead branch place within' head
      rw [← braces] at first
      have kept := item.suffix cursor.take
      rw [head] at kept
      cases branch with
      | inr last =>
        obtain ⟨same, _⟩ := ofReader_eq_read.1 tail
        obtain ⟨rfl, rfl⟩ := Reader.pure_eq_read.1 same
        exact first
      | inl branch =>
        obtain ⟨inner, others, last, none, rest, done, rfl⟩ := bind_eq_read.1 tail
        obtain ⟨same, _⟩ := ofReader_eq_read.1 done
        obtain ⟨rfl, rfl⟩ := Reader.pure_eq_read.1 same
        have shorter : place.rest.length < length := measured ▸ length_lt_of_take more head
        exact first.append (ih _ shorter place rfl inner others last (kept.trans within') rest)
    · rw [run_branches_of_ne here, Passage.mk.injEq, Outcome.read.injEq] at ran
      obtain ⟨_, rfl, rfl⟩ := ran
      rw [Cursor.rest_look]
      exact accounts_nil _

/-- A chain keeps the account when its blocks do. -/
theorem accounts_readChain
    (keeps : block.KeepsAccount grammar text depth (nestedAll (depth + 1)) depth) :
    (readChain block).KeepsAccount grammar text depth (nested depth) depth := by
  refine .after (Reader.keepsBraces_expect (by decide) (by decide)) fun _ => ?_
  intro cursor faults value after within ran
  obtain ⟨ahead, branch, middle, behind, head, tail, rfl⟩ := bind_eq_read.1 ran
  obtain ⟨inner, others, last, none, rest, done, rfl⟩ := bind_eq_read.1 tail
  obtain ⟨same, _⟩ := ofReader_eq_read.1 done
  obtain ⟨rfl, rfl⟩ := Reader.pure_eq_read.1 same
  have kept := (readBranch block).suffix cursor
  rw [head] at kept
  have first := accounts_readBranch keeps cursor ahead branch middle within head
  exact first.append (accounts_branches (accounts_readElse keeps) middle inner others last
    (kept.trans within) rest)

end Chain

/-- An expression is marked with its place and with the account at it. -/
theorem accounts_readWith (braces : grammar.KeepsBraces)
    {chain : Tolerant (Statement (Mark α))}
    (keeps : chain.KeepsAccount grammar text depth (nested depth) depth) :
    (readWith grammar.marked chain).KeepsAccount grammar text depth (nested depth) depth := by
  intro cursor faults value after within ran
  have looked : cursor.look.rest <:+ text := by rwa [Cursor.rest_look]
  by_cases starts : cursor.word = "if"
  · simp only [readWith, if_pos starts] at ran
    have chained := keeps cursor.look faults value after looked ran
    rwa [Cursor.rest_look] at chained
  · simp only [readWith, if_neg starts, Grammar.marked, Passage.mk.injEq] at ran
    obtain ⟨_, mapped⟩ := ran
    cases found : grammar.read.run cursor.look with
    | failed error place => simp [found, Outcome.map] at mapped
    | read payload place =>
      simp only [found, Outcome.map, Outcome.read.injEq] at mapped
      obtain ⟨rfl, rfl⟩ := mapped
      have same := braces cursor.look payload place found
      rw [Cursor.rest_look] at same
      refine ⟨⟨⟨⟨looked, cursor.look.shown, place, found⟩, ?_⟩, trivial⟩, ?_⟩
      · rw [Cursor.rest_look]
      · simp [same, nested, straying, Mark.openBraces]

/-- However deep blocks may lie, a statement that was laid out keeps the account. -/
theorem accounts_readMarked (text : List Token) (braces : grammar.KeepsBraces) (room depth : Nat) :
    (readMarked grammar room).1.KeepsAccount grammar text depth (nested depth) depth := by
  induction room generalizing depth with
  | zero =>
    refine accounts_readWith braces ?_
    intro cursor faults value after _ ran
    exact absurd ran readTooDeep_ne_read
  | succ room ih =>
    have inner := accounts_readOrGap true (ih (depth + 1))
    exact accounts_readWith braces (accounts_readChain (accounts_readBlock inner))

end Statement

section Text

variable {grammar : Grammar α}

/-- A layout accounts for every brace of its text. -/
theorem accounts_layOut {text : List Token} (braces : grammar.KeepsBraces) (cursor : Cursor)
    (within : cursor.rest <:+ text) :
    Accounts grammar text (openBraces cursor.rest)
      (Statement.nestedAll 0 (layOut grammar cursor)) 0 := by
  induction measured : cursor.rest.length using Nat.strongRecOn generalizing cursor with
  | ind length ih =>
    by_cases ended : cursor.rest = []
    · rw [layOut_end ended, ended]
      exact accounts_nil 0
    · rw [layOut_cons ended, Statement.nestedAll]
      have keeps := Statement.accounts_readOrGap false
        (Statement.accounts_readMarked text braces Guard.mostNesting 0)
      have first := keeps cursor [] _ _ within rfl
      have shorter := Statement.progresses_readOrGap false
        (Statement.readMarked grammar Guard.mostNesting).2 cursor ended
      have kept := (Statement.readOrGap false
        (Statement.readMarked grammar Guard.mostNesting).1).suffix cursor
      rw [Int.natCast_zero, Int.add_zero, Int.add_zero] at first
      exact first.append (ih _ (measured ▸ shorter) _ (kept.trans within) rfl)

/-- The marks of a text in order, with the number of blocks around each of them. -/
def marks (grammar : Grammar α) (tokens : List Token) : List (Nat × Mark α) :=
  Statement.nestedAll 0 (layOut grammar (.ofTokens tokens))

/-- Whether each expression that is read lies inside as many blocks as braces are open in front of
its first token. -/
def NestsByBraces (grammar : Grammar α) (tokens : List Token) : Prop :=
  ∀ depth payload rest, (depth, .expression payload rest) ∈ marks grammar tokens →
    (depth : Int) = openBraces (inFront tokens rest)

/-- Whether the gaps in front of each expression open as many braces as they close. -/
def GapsCancel (grammar : Grammar α) (tokens : List Token) : Prop :=
  ∀ front depth payload rest behind,
    marks grammar tokens = front ++ (depth, .expression payload rest) :: behind →
      straying front = 0

/-- Each expression of a layout is read at its place, and its depth differs from the number of
open braces in front of it by what the gaps in front of it leave open. -/
theorem depth_of_marks (braces : grammar.KeepsBraces) {tokens rest : List Token}
    {front behind : List (Nat × Mark α)} {depth : Nat} {payload : α}
    (split : marks grammar tokens = front ++ (depth, .expression payload rest) :: behind) :
    grammar.ReadsAt tokens payload rest ∧
      openBraces (inFront tokens rest) = depth + straying front := by
  have within : (Cursor.ofTokens tokens).rest <:+ tokens := List.suffix_rfl
  have accounts := accounts_layOut braces (.ofTokens tokens) within
  have agrees := accounts.agrees
  change Agrees grammar tokens _ (marks grammar tokens) at agrees
  rw [split] at agrees
  obtain ⟨reads, account⟩ := agrees.at
  have whole := congrArg openBraces (inFront_append reads.1)
  rw [openBraces_append] at whole
  change openBraces tokens - straying front = _ at account
  exact ⟨reads, by omega⟩

/-- Expressions lie where their braces say exactly when the gaps in front of them cancel. -/
theorem nestsByBraces_iff (braces : grammar.KeepsBraces) (tokens : List Token) :
    NestsByBraces grammar tokens ↔ GapsCancel grammar tokens := by
  constructor
  · intro nests front depth payload rest behind split
    have inside : (depth, .expression payload rest) ∈ marks grammar tokens := by
      rw [split]
      exact List.mem_append_right front List.mem_cons_self
    have same := nests depth payload rest inside
    have account := (depth_of_marks braces split).2
    omega
  · intro cancel depth payload rest inside
    obtain ⟨front, behind, split⟩ := List.append_of_mem inside
    have none := cancel front depth payload rest behind split
    have account := (depth_of_marks braces split).2
    omega

/-- What makes the marks of a text those of the statements that are read from it. -/
structure Charts (grammar : Grammar α) (tokens : List Token) : Prop where
  /-- Without its gaps and places, the layout is what is read. -/
  statements : Statement.keepAll Mark.payload? (layOut grammar (.ofTokens tokens)) =
    (Reading.ofTokens grammar .resume tokens).statements
  /-- Each expression is read at its place. -/
  places : ∀ depth payload rest, (depth, .expression payload rest) ∈ marks grammar tokens →
    grammar.ReadsAt tokens payload rest

/-- The marks of a text are those of its statements. -/
theorem charts (braces : grammar.KeepsBraces) (tokens : List Token) : Charts grammar tokens where
  statements := keepAll_layOut grammar (.ofTokens tokens)
  places := by
    intro depth payload rest inside
    obtain ⟨front, behind, split⟩ := List.append_of_mem inside
    exact (depth_of_marks braces split).1

end Text

/-- In both record types, recovery moves no statement into or out of a block exactly when what it
skipped in front of each statement opens as many braces as it closes. -/
theorem nesting_of_statements (tokens : List Token) :
    (Charts KeywordPatch.grammar tokens ∧
      (NestsByBraces KeywordPatch.grammar tokens ↔ GapsCancel KeywordPatch.grammar tokens)) ∧
    (Charts ArmorPatch.grammar tokens ∧
      (NestsByBraces ArmorPatch.grammar tokens ↔ GapsCancel ArmorPatch.grammar tokens)) := by
  have keyword := KeywordPatch.keepsBraces_grammar
  have armor := ArmorPatch.keepsBraces_grammar
  constructor
  · exact ⟨charts keyword tokens, nestsByBraces_iff keyword tokens⟩
  · exact ⟨charts armor tokens, nestsByBraces_iff armor tokens⟩

/-- A block behind `if` that lacks its guard. -/
def unguardedBlock : List Token :=
  tokenize "if \x7b a;\nFilterByEditorID(\"X\").EditorID = \"Y\";\n\x7d"

/-- The brace of a block without a guard is taken for the guard's parenthesis, and the statement
inside the block is read outside of it. -/
theorem unguardedBlock_promotes :
    (∀ token ∈ unguardedBlock, token.text ≠ "") ∧ NeverOverclosed unguardedBlock ∧
      ¬NestsByBraces KeywordPatch.grammar unguardedBlock := by
  refine ⟨by decide +kernel, by decide +kernel, ?_⟩
  intro nests
  have inside : (0, .expression ⟨.editorId "X", "Y"⟩ (unguardedBlock.drop 4)) ∈
      marks KeywordPatch.grammar unguardedBlock := by decide +kernel
  have same := nests 0 _ _ inside
  have opened : openBraces (inFront unguardedBlock (unguardedBlock.drop 4)) = 1 := by
    decide +kernel
  rw [opened] at same
  cases same

end FormPatch
