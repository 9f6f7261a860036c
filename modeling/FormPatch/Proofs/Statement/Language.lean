import FormPatch.Proofs.Guard.Language
import FormPatch.Proofs.Statement.Parts
import FormPatch.Proofs.Statement.Reading
import FormPatch.Proofs.Statement.Written

/-!
# The language of statements

Which words derive which statement tree: a statement is an expression or a chain of guarded blocks.
Over the phrases that a grammar recognizes as expressions, reading that ends at the first fault
accepts the derived words whose chains lie no deeper in each other than they may, and nothing else.
-/

namespace FormPatch

open Syntax

variable {α : Type}

/-- The words of a block, from brace to brace. -/
def blockWords (inside : List String) : List String := "\x7b" :: (inside ++ ["\x7d"])

/-- The words of a guard in parentheses and of the block behind it. -/
def branchWords (asked inside : List String) : List String :=
  "(" :: (asked ++ ")" :: blockWords inside)

mutual

/-- Which words derive a statement. -/
inductive Statement.Derives (expressions : Phrases α) : List String → Statement α → Prop
  /-- An expression. -/
  | expression {words : List String} {payload : α} (spelled : expressions words payload) :
    Statement.Derives expressions words (.expression payload)
  /-- A guarded block behind `if`, and what follows it. -/
  | conditional {asked inside others : List String} {guard : Guard} {body : List (Statement α)}
    {otherwise : Otherwise α} (accepted : Guard.IsAccepted asked guard)
    (within : Statement.DerivesAll expressions inside body)
    (behind : Otherwise.Derives expressions others otherwise) :
    Statement.Derives expressions ("if" :: (branchWords asked inside ++ others))
      (.conditional guard body otherwise)

/-- Which words derive statements, one behind the other. -/
inductive Statement.DerivesAll (expressions : Phrases α) :
    List String → List (Statement α) → Prop
  /-- No statement. -/
  | nil : Statement.DerivesAll expressions [] []
  /-- A statement and others behind it. -/
  | cons {front others : List String} {statement : Statement α} {rest : List (Statement α)}
    (first : Statement.Derives expressions front statement)
    (behind : Statement.DerivesAll expressions others rest) :
    Statement.DerivesAll expressions (front ++ others) (statement :: rest)

/-- Which words derive what follows a guarded block. -/
inductive Otherwise.Derives (expressions : Phrases α) : List String → Otherwise α → Prop
  /-- Nothing. -/
  | nothing : Otherwise.Derives expressions [] .nothing
  /-- A last block behind `else`. -/
  | block {inside : List String} {body : List (Statement α)}
    (within : Statement.DerivesAll expressions inside body) :
    Otherwise.Derives expressions ("else" :: blockWords inside) (.block body)
  /-- A guarded block behind `else` and `if`, and what follows it. -/
  | branch {asked inside others : List String} {guard : Guard} {body : List (Statement α)}
    {otherwise : Otherwise α} (accepted : Guard.IsAccepted asked guard)
    (within : Statement.DerivesAll expressions inside body)
    (behind : Otherwise.Derives expressions others otherwise) :
    Otherwise.Derives expressions ("else" :: "if" :: (branchWords asked inside ++ others))
      (.branch guard body otherwise)

end

/-- Whether phrases start with words, none of which is one of a chain or block. -/
def Syntax.Phrases.StartApart (phrases : Phrases α) : Prop :=
  ∀ words value, phrases words value →
    ∃ word others, words = word :: others ∧ word ≠ "if" ∧ word ≠ "else" ∧ word ≠ "\x7d"

/-- Whether the expressions that a grammar reads are certain phrases, which start apart from the
words of chains and blocks. -/
structure Grammar.Recognizes (grammar : Grammar α) (expressions : Phrases α) : Prop where
  /-- The phrases are recognized. -/
  read : grammar.read.Recognizes Anywhere expressions
  /-- They start apart. -/
  apart : expressions.StartApart

namespace Statement

variable {expressions : Phrases α} {room : Nat}

/-- Which words derive a statement whose chains lie no deeper in each other than the room allows. -/
def Within (expressions : Phrases α) (room : Nat) : Phrases (Statement α) :=
  fun words statement => statement.Derives expressions words ∧ statement.height ≤ room

/-- Which words derive statements whose chains lie no deeper in each other than the room allows. -/
def AllWithin (expressions : Phrases α) (room : Nat) : Phrases (List (Statement α)) :=
  fun words statements => DerivesAll expressions words statements ∧ heightAll statements ≤ room

section Derivations

/-- A statement starts neither with `else` nor with a closing brace. -/
theorem Derives.starts (apart : expressions.StartApart) {words : List String}
    {statement : Statement α} (derives : statement.Derives expressions words) :
    ∃ word others, words = word :: others ∧ word ≠ "else" ∧ word ≠ "\x7d" := by
  cases derives with
  | expression spelled =>
    obtain ⟨word, others, split, _, other⟩ := apart _ _ spelled
    exact ⟨word, others, split, other⟩
  | conditional => exact ⟨_, _, rfl, by decide⟩

/-- No statements start with `else`. -/
theorem DerivesAll.notAt (apart : expressions.StartApart) {words left : List String}
    {statements : List (Statement α)} (derives : DerivesAll expressions words statements)
    (other : left.head? ≠ some "else") : (words ++ left).head? ≠ some "else" := by
  cases derives with
  | nil => exact other
  | cons first behind =>
    obtain ⟨word, others, rfl, different, _⟩ := first.starts apart
    simpa using different

/-- Only the empty text spells no statements. -/
theorem allWithin_nil_iff {words : List String} :
    AllWithin expressions room words [] ↔ words = [] := by
  constructor
  · rintro ⟨derives, _⟩
    cases derives
    rfl
  · rintro rfl
    exact ⟨.nil, Nat.zero_le _⟩

/-- Statements are spelled by the text of the first one and that of the others. -/
theorem allWithin_cons_iff {words : List String} {statement : Statement α}
    {rest : List (Statement α)} :
    AllWithin expressions room words (statement :: rest) ↔
      ∃ front others, words = front ++ others ∧ Within expressions room front statement ∧
        AllWithin expressions room others rest := by
  constructor
  · rintro ⟨derives, height⟩
    obtain ⟨low, lows⟩ := Nat.max_le.1 height
    cases derives with
    | cons first behind => exact ⟨_, _, rfl, ⟨first, low⟩, behind, lows⟩
  · rintro ⟨front, others, rfl, ⟨first, low⟩, behind, lows⟩
    exact ⟨.cons first behind, Nat.max_le.2 ⟨low, lows⟩⟩

end Derivations

section Body

variable {statement : Tolerant (Statement α)} {progresses : statement.Progresses}

/-- An attempt that ends at a fault recognizes what its statement does, as a list of one. -/
theorem recognizes_attempt {before : Statement α → List String → Prop}
    {phrases : Phrases (Statement α)} (recognizes : statement.Recognizes before phrases) :
    (attempt .abort true statement).Recognizes
      (fun front left => ∀ first, front = [first] → before first left)
      fun words front => ∃ first, front = [first] ∧ phrases words first := by
  intro cursor front left allowed
  constructor
  · rintro ⟨after, ran, rfl⟩
    obtain ⟨first, ran', rfl⟩ := attempt_eq_read ran
    obtain ⟨words, stands, spelled⟩ := (recognizes cursor first _ (allowed first rfl)).1
      ⟨after, ran', rfl⟩
    exact ⟨words, stands, first, rfl, spelled⟩
  · rintro ⟨words, stands, first, rfl, spelled⟩
    obtain ⟨after, ran, last⟩ := (recognizes cursor first left (allowed first rfl)).2
      ⟨words, stands, spelled⟩
    exact ⟨after, by simp only [attempt, ran], last⟩

/-- Statements and a closing brace. -/
def Closed (inner : Phrases (List (Statement α))) : Phrases (List (Statement α)) :=
  fun words statements => ∃ inside, words = inside ++ ["\x7d"] ∧ inner inside statements

/-- The rest of a block is recognized. -/
theorem recognizes_body (apart : expressions.StartApart)
    (recognizes : statement.Recognizes (NotAt "else") (Within expressions room)) :
    (body .abort statement progresses).Recognizes Anywhere
      (Closed (AllWithin expressions room)) := by
  intro cursor
  induction measured : cursor.rest.length using Nat.strongRecOn generalizing cursor with
  | ind length ih =>
    by_cases ended : cursor.rest = []
    · rw [run_body_of_end ended, Cursor.rest_eq_nil.1 ended]
      rintro statements left _
      constructor
      · rintro ⟨after, ran, _⟩
        cases ran
      · rintro ⟨_, split, inside, rfl, _⟩
        simp at split
    by_cases closes : cursor.word = "\x7d"
    · have nothing : Phrases.MatchesAt _ cursor.take.words Anywhere _ :=
        Tolerant.recognizes_pure ([] : List (Statement α)) cursor.take
      rw [run_body_of_brace closes, Cursor.words_of_word (by decide) closes]
      refine (nothing.behind "\x7d").congr fun words statements left stands _ => ?_
      constructor
      · rintro ⟨_, rfl, rfl, rfl⟩
        exact ⟨[], rfl, allWithin_nil_iff.2 rfl⟩
      · rintro ⟨inside, rfl, within⟩
        cases statements with
        | nil =>
          obtain rfl := allWithin_nil_iff.1 within
          exact ⟨[], rfl, rfl, rfl⟩
        | cons first rest =>
          obtain ⟨front, others, rfl, ⟨derives, _⟩, _⟩ := allWithin_cons_iff.1 within
          obtain ⟨word, others, rfl, _, other⟩ := derives.starts apart
          exact absurd (List.cons.inj stands).1.symm other
    · have later (front : List (Statement α)) (middle : Cursor)
          (ran : (attempt .abort true statement).run cursor.look = ⟨[], .read front middle⟩) :
          Phrases.MatchesAt _ middle.words Anywhere _ :=
        have shorter : middle.rest.length < length :=
          measured ▸ length_attempt_lt progresses ended ran
        .bind (fun _ _ => Tolerant.bind_eq_clean) (ih _ shorter middle rfl)
          (fun rest place _ => Tolerant.recognizes_pure (front ++ rest) place)
          fun _ _ _ _ _ _ => trivial
      have whole := Phrases.MatchesAt.bind (fun _ _ => Tolerant.bind_eq_clean)
        (recognizes_attempt recognizes cursor.look) later ?_
      · rw [Cursor.words_look] at whole
        rw [run_body ended closes]
        refine whole.congr fun words statements left stands _ => ?_
        constructor
        · rintro ⟨_, front, _, rfl, ⟨first, rfl, derives⟩, rest, _, _, rfl,
            ⟨inside, rfl, within⟩, rfl, rfl⟩
          exact ⟨front ++ inside, by simp,
            allWithin_cons_iff.2 ⟨front, inside, rfl, derives, within⟩⟩
        · rintro ⟨inside, rfl, within⟩
          cases statements with
          | nil =>
            obtain rfl := allWithin_nil_iff.1 within
            exact absurd (Cursor.word_of_words stands) closes
          | cons first rest =>
            obtain ⟨front, others, rfl, derives, within⟩ := allWithin_cons_iff.1 within
            exact ⟨[first], front, others ++ ["\x7d"], by simp, ⟨first, rfl, derives⟩, rest, _, [],
              by simp, ⟨others, rfl, within⟩, rfl, rfl⟩
      · -- What stands behind a statement in a block starts with another statement or the brace.
        rintro _ _ _ left ⟨rest, _, _, rfl, ⟨inside, rfl, within⟩, rfl, rfl⟩ _ first rfl
        rw [NotAt, List.append_assoc, List.append_assoc]
        exact within.1.notAt apart (by simp)

end Body

section Chain

variable {inner : Phrases (List (Statement α))} {block : Tolerant (List (Statement α))}

/-- Statements between braces. -/
def Block (inner : Phrases (List (Statement α))) : Phrases (List (Statement α)) :=
  fun words statements => ∃ inside, words = blockWords inside ∧ inner inside statements

/-- A guard in parentheses and a block. -/
def Branch (inner : Phrases (List (Statement α))) : Phrases (Guard × List (Statement α)) :=
  fun words branch => ∃ asked inside, words = branchWords asked inside ∧
    Guard.IsAccepted asked branch.1 ∧ inner inside branch.2

/-- What stands behind `else`: a guarded block behind `if`, or a block. -/
def BehindElse (inner : Phrases (List (Statement α))) :
    Phrases ((Guard × List (Statement α)) ⊕ List (Statement α)) :=
  fun words => Sum.elim ((Branch inner).behind "if" words) (Block inner words)

/-- A block is recognized when the statements in front of its closing brace are. -/
theorem recognizes_readBlock {statement : Tolerant (Statement α)}
    {progresses : statement.Progresses}
    (recognizes : (body .abort statement progresses).Recognizes Anywhere (Closed inner)) :
    (readBlock .abort statement progresses).Recognizes Anywhere (Block inner) := by
  refine (Tolerant.Recognizes.expect (by decide) recognizes).congr fun words statements => ?_
  constructor
  · rintro ⟨_, rfl, inside, rfl, within⟩
    exact ⟨inside, rfl, within⟩
  · rintro ⟨inside, rfl, within⟩
    exact ⟨_, rfl, inside, rfl, within⟩

/-- A branch is recognized when its block is. -/
theorem recognizes_readBranch (recognizes : block.Recognizes Anywhere (Block inner)) :
    (readBranch block).Recognizes Anywhere (Branch inner) := by
  have closed (guard : Guard) : (Tolerant.ofReader (Reader.expect ")") >>= fun _ =>
      block >>= fun body => pure (guard, body)).Recognizes Anywhere _ :=
    (recognizes.map (guard, ·) fun _ _ _ => trivial).expect (by decide)
  have guarded := (Tolerant.recognizes_ofReader Guard.recognizes_read).bind closed ?_
  · refine (guarded.expect (by decide : "(" ≠ "")).congr fun words branch => ?_
    constructor
    · rintro ⟨_, rfl, guard, asked, _, rfl, accepted, _, rfl, body, rfl, inside, rfl, within⟩
      exact ⟨asked, inside, rfl, accepted, within⟩
    · rintro ⟨asked, inside, rfl, accepted, within⟩
      exact ⟨_, rfl, branch.1, asked, _, rfl, accepted, _, rfl, branch.2, rfl, inside, rfl, within⟩
  · rintro guard _ branch left ⟨others, rfl, _⟩ _
    rfl

/-- What stands behind an else is recognized when its block is. -/
theorem recognizes_readElse (recognizes : block.Recognizes Anywhere (Block inner)) :
    (readElse block).Recognizes Anywhere (BehindElse inner) := by
  have branch : (readBranch block >>= fun branch => pure (Sum.inl branch) :
      Tolerant ((Guard × List (Statement α)) ⊕ List (Statement α))).Recognizes Anywhere _ :=
    (recognizes_readBranch recognizes).map Sum.inl fun _ _ _ => trivial
  have last : (block >>= fun body => pure (Sum.inr body) :
      Tolerant ((Guard × List (Statement α)) ⊕ List (Statement α))).Recognizes Anywhere _ :=
    recognizes.map Sum.inr fun _ _ _ => trivial
  refine (Tolerant.Recognizes.choice (by decide) branch last ?_).congr fun words item => ?_
  · rintro _ item left ⟨statements, rfl, inside, rfl, _⟩ _
    simp [NotAt, blockWords]
  · cases item with
    | inl branch =>
      constructor
      · rintro (⟨others, rfl, found, same, spelled⟩ | ⟨body, impossible, _⟩)
        · obtain rfl := Sum.inl.inj same
          exact ⟨others, rfl, spelled⟩
        · cases impossible
      · rintro ⟨others, rfl, spelled⟩
        exact .inl ⟨others, rfl, branch, rfl, spelled⟩
    | inr statements =>
      constructor
      · rintro (⟨others, rfl, found, impossible, _⟩ | ⟨body, same, spelled⟩)
        · cases impossible
        · obtain rfl := Sum.inr.inj same
          exact spelled
      · exact fun spelled => .inr ⟨statements, rfl, spelled⟩

end Chain

section Nested

/-- The branches and the last block behind a guarded block derive what follows it. -/
theorem branches_behindElse_iff {words : List String}
    {branches : List (Guard × List (Statement α))} {last : Option (List (Statement α))} :
    (BehindElse (AllWithin expressions room)).Branches "else" words (branches, last) ↔
      (Otherwise.ofBranches branches last).Derives expressions words ∧
        (Otherwise.ofBranches branches last).height ≤ room := by
  induction branches generalizing words with
  | nil =>
    cases last with
    | none =>
      constructor
      · rintro ⟨⟩
        exact ⟨.nothing, Nat.zero_le _⟩
      · rintro ⟨⟨⟩, _⟩
        exact .nothing
    | some body =>
      constructor
      · rintro (_ | ⟨inside, rfl, within, height⟩)
        exact ⟨.block within, height⟩
      · rintro ⟨_ | within, height⟩
        exact .last ⟨_, rfl, within, height⟩
  | cons branch rest ih =>
    obtain ⟨guard, body⟩ := branch
    constructor
    · rintro (_ | _ | ⟨⟨others, rfl, asked, inside, rfl, accepted, within, low⟩, spelled⟩)
      obtain ⟨behind, height⟩ := ih.1 spelled
      exact ⟨.branch accepted within behind, Nat.max_le.2 ⟨low, height⟩⟩
    · rintro ⟨derives, height⟩
      obtain ⟨low, height⟩ := Nat.max_le.1 height
      cases derives with
      | branch accepted within behind =>
        have first : BehindElse (AllWithin expressions room) _ (.inl (guard, body)) :=
          ⟨_, rfl, _, _, rfl, accepted, within, low⟩
        exact .branch first (ih.2 ⟨behind, height⟩)

/-- A chain is recognized where no `else` follows. -/
theorem recognizes_readChain (apart : expressions.StartApart)
    {block : Tolerant (List (Statement α))}
    (recognizes : block.Recognizes Anywhere (Block (AllWithin expressions room))) :
    (readChain block).Recognizes (NotAt "else") fun words statement =>
      words.head? = some "if" ∧ Within expressions (room + 1) words statement := by
  have behind (guard : Guard) (body : List (Statement α)) :
      (Tolerant.branches "else" (by decide) (readElse block) >>= fun found =>
        pure (Statement.conditional guard body (.ofBranches found.1 found.2))).Recognizes
          (NotAt "else") _ :=
    (Tolerant.recognizes_branches (recognizes_readElse recognizes)).map
      (fun found => Statement.conditional guard body (.ofBranches found.1 found.2))
      fun _ _ other => other
  have chain := ((recognizes_readBranch recognizes).append fun branch =>
    behind branch.1 branch.2).expect (by decide : "if" ≠ "")
  refine chain.congr fun words statement => ?_
  constructor
  · rintro ⟨_, rfl, ⟨guard, body⟩, _, others, rfl, ⟨asked, inside, rfl, accepted, within, low⟩,
      ⟨rest, last⟩, rfl, spelled⟩
    obtain ⟨derives, height⟩ := branches_behindElse_iff.1 spelled
    exact ⟨rfl, .conditional accepted within derives, Nat.succ_le_succ (Nat.max_le.2 ⟨low, height⟩)⟩
  · rintro ⟨starts, derives, height⟩
    cases derives with
    | expression spelled =>
      obtain ⟨word, others, rfl, other, _⟩ := apart _ _ spelled
      exact absurd (Option.some.inj starts) other
    | @conditional asked inside others guard body otherwise accepted within behind =>
      obtain ⟨low, height⟩ := Nat.max_le.1 (Nat.le_of_succ_le_succ height)
      have same := otherwise.ofBranches_branches
      refine ⟨_, rfl, (guard, body), _, others, rfl, ⟨asked, inside, rfl, accepted, within, low⟩,
        (otherwise.branches, otherwise.last?), by rw [same], branches_behindElse_iff.2 ?_⟩
      rw [same]
      exact ⟨behind, height⟩

/-- A statement is recognized when chains are. -/
theorem recognizes_readWith {grammar : Grammar α} (recognizes : grammar.Recognizes expressions)
    {chain : Tolerant (Statement α)}
    (chains : chain.Recognizes (NotAt "else") fun words statement =>
      words.head? = some "if" ∧ Within expressions room words statement) :
    (readWith grammar chain).Recognizes (NotAt "else") (Within expressions room) := by
  intro cursor statement left other
  by_cases starts : cursor.word = "if"
  · have split := Cursor.words_of_word (by decide) starts
    simp only [readWith, if_pos starts, chains cursor.look statement left other, Cursor.words_look]
    constructor
    · rintro ⟨front, stands, _, within⟩
      exact ⟨front, stands, within⟩
    · rintro ⟨front, stands, derives, height⟩
      obtain ⟨word, others, rfl, _⟩ := derives.starts recognizes.apart
      obtain rfl := (List.cons.inj (stands.symm.trans split)).1
      exact ⟨_, stands, rfl, derives, height⟩
  · simp only [readWith, if_neg starts]
    constructor
    · rintro ⟨after, ran, rfl⟩
      cases found : grammar.read.run cursor.look with
      | failed error place => simp [found, Outcome.map] at ran
      | read payload place =>
        simp only [found, Outcome.map, Passage.mk.injEq, Outcome.read.injEq, true_and] at ran
        obtain ⟨rfl, rfl⟩ := ran
        obtain ⟨front, stands, spelled⟩ := (recognizes.read cursor.look payload _ trivial).1
          ⟨place, found, rfl⟩
        exact ⟨front, by rw [← Cursor.words_look, stands], .expression spelled, Nat.zero_le _⟩
    · rintro ⟨front, stands, derives, height⟩
      cases derives with
      | conditional => exact absurd (Cursor.word_of_words stands) starts
      | @expression _ payload spelled =>
        obtain ⟨after, ran, last⟩ := (recognizes.read cursor.look payload left trivial).2
          ⟨front, by rw [Cursor.words_look, stands], spelled⟩
        exact ⟨after, by rw [ran]; rfl, last⟩

/-- Where no room is left, no chain is recognized, and none fits. -/
theorem recognizes_readTooDeep (apart : expressions.StartApart) :
    readTooDeep.Recognizes (NotAt "else") fun words statement =>
      words.head? = some "if" ∧ Within expressions 0 words statement := by
  intro cursor statement left _
  constructor
  · rintro ⟨after, ran, _⟩
    exact absurd ran readTooDeep_ne_read
  · rintro ⟨front, _, starts, derives, height⟩
    cases derives with
    | conditional => cases height
    | expression spelled =>
      obtain ⟨word, others, rfl, other, _⟩ := apart _ _ spelled
      exact absurd (Option.some.inj starts) other

/-- However deep blocks may lie, a statement is recognized where no `else` follows. -/
theorem recognizes_readNested {grammar : Grammar α} (recognizes : grammar.Recognizes expressions)
    (room : Nat) :
    (readNested grammar .abort room).1.Recognizes (NotAt "else") (Within expressions room) := by
  have apart := recognizes.apart
  induction room with
  | zero => exact recognizes_readWith recognizes (recognizes_readTooDeep apart)
  | succ room ih =>
    exact recognizes_readWith recognizes
      (recognizes_readChain apart (recognizes_readBlock (recognizes_body apart ih)))

end Nested

end Statement

namespace Reading

variable {expressions : Phrases α} {grammar : Grammar α}

/-- From every place on, statements are read without a fault exactly where they are derived. -/
theorem ofCursor_eq_iff (recognizes : grammar.Recognizes expressions) (cursor : Cursor)
    (statements : List (Statement α)) :
    ofCursor grammar .abort cursor = ⟨statements, []⟩ ↔
      Statement.AllWithin expressions Guard.mostNesting cursor.words statements := by
  have reads := Statement.recognizes_readNested recognizes Guard.mostNesting
  induction measured : cursor.rest.length using Nat.strongRecOn generalizing cursor statements with
  | ind length ih =>
    by_cases ended : cursor.rest = []
    · rw [ofCursor_end ended, Cursor.rest_eq_nil.1 ended]
      cases statements with
      | nil => exact iff_of_true rfl (Statement.allWithin_nil_iff.2 rfl)
      | cons first rest =>
        refine iff_of_false (fun same => by cases same) fun within => ?_
        obtain ⟨front, others, split, derives, _⟩ := Statement.allWithin_cons_iff.1 within
        obtain ⟨word, _, rfl, _⟩ := derives.1.starts recognizes.apart
        cases split
    constructor
    · intro same
      cases ran : (Statement.read grammar .abort).run cursor with
      | mk faults outcome =>
        cases outcome with
        | failed error next =>
          have faulty := faults_ofCursor_failed ended ran
          rw [same] at faulty
          exact absurd rfl faulty
        | read first next =>
          rw [ofCursor_read ended ran, after, Reading.mk.injEq, List.append_eq_nil_iff] at same
          obtain ⟨rfl, rfl, clean⟩ := same
          have shorter : next.rest.length < length :=
            measured ▸ (Statement.progresses_read grammar .abort).length_lt ended ran
          have within := (ih _ shorter next _ rfl).1 (by rw [← clean])
          have other : NotAt "else" first (next.words ++ []) :=
            within.1.notAt recognizes.apart (by simp)
          rw [List.append_nil] at other
          obtain ⟨front, stands, derives⟩ := (reads cursor first _ other).1 ⟨next, ran, rfl⟩
          exact Statement.allWithin_cons_iff.2 ⟨front, next.words, stands, derives, within⟩
    · intro within
      cases statements with
      | nil => exact absurd (Cursor.rest_eq_nil.2 (Statement.allWithin_nil_iff.1 within)) ended
      | cons first rest =>
        obtain ⟨front, others, stands, derives, within⟩ := Statement.allWithin_cons_iff.1 within
        have other : NotAt "else" first (others ++ []) :=
          within.1.notAt recognizes.apart (by simp)
        rw [List.append_nil] at other
        obtain ⟨next, ran, rfl⟩ := (reads cursor first others other).2 ⟨front, stands, derives⟩
        have shorter : next.rest.length < length :=
          measured ▸ (Statement.progresses_read grammar .abort).length_lt ended ran
        rw [ofCursor_read ended ran, (ih _ shorter next rest rfl).2 within]
        rfl

end Reading

/-- Whether reading that ends at the first fault accepts exactly the words that are derived over
certain expressions, and answers the derived tree. -/
structure Grammar.Accepts (grammar : Grammar α) (expressions : Phrases α) : Prop where
  /-- There is no fault exactly where the words are derived. -/
  clean : ∀ tokens, (Reading.ofTokens grammar .abort tokens).faults = [] ↔
    ∃ statements, Statement.DerivesAll expressions (tokens.map Token.text) statements ∧
      Statement.heightAll statements ≤ Guard.mostNesting
  /-- What the words derive is what is read. -/
  tree : ∀ tokens statements,
    Statement.DerivesAll expressions (tokens.map Token.text) statements →
      Statement.heightAll statements ≤ Guard.mostNesting →
        Reading.ofTokens grammar .abort tokens = ⟨statements, []⟩

/-- Over the phrases that a grammar recognizes, reading accepts exactly what is derived. -/
theorem Grammar.Recognizes.accepts {grammar : Grammar α} {expressions : Phrases α}
    (recognizes : grammar.Recognizes expressions) : grammar.Accepts expressions := by
  have reads (tokens : List Token) := Reading.ofCursor_eq_iff recognizes (.ofTokens tokens)
  constructor
  · intro tokens
    constructor
    · intro clean
      exact ⟨_, (reads tokens (Reading.ofTokens grammar .abort tokens).statements).1
        (by rw [← clean]; rfl)⟩
    · rintro ⟨statements, within⟩
      rw [Reading.ofTokens, (reads tokens statements).2 within]
  · intro tokens statements derives height
    exact (reads tokens statements).2 ⟨derives, height⟩

end FormPatch
