import FormPatch.Proofs.Statement.Reading

/-!
# Ending at a fault and going on behind it

Reading may end at a fault or go on behind it. Up to the first fault both take the same tokens, so
the reading that ends is the one that goes on, cut at its first fault. A chain makes the difference:
the fault of a statement deep inside ends all blocks around it in one reading and costs one
statement of the innermost block in the other.
-/

namespace FormPatch

open Syntax Syntax.Tolerant

variable {α β : Type}

namespace Syntax

namespace Passage

/-- Every fault that was met, the one at the end included. -/
def met (passage : Passage α) : List Located :=
  match passage.outcome with
  | .read _ _ => passage.faults
  | .failed error _ => passage.faults ++ [error]

/-- Whether a passage is another one cut at its first fault. -/
inductive Cuts : Passage α → Passage α → Prop
  /-- There is no fault, and both are one passage. -/
  | read (value : α) (after : Cursor) : Cuts ⟨[], .read value after⟩ ⟨[], .read value after⟩
  /-- The first fault of the other passage ends this one. -/
  | failed {error : Located} {after : Cursor} {whole : Passage α}
    (first : whole.met.head? = some error) : Cuts ⟨[], .failed error after⟩ whole

/-- Faults met in front are met first. -/
theorem met_behind (faults : List Located) (passage : Passage α) :
    (passage.behind faults).met = faults ++ passage.met := by
  obtain ⟨later, outcome⟩ := passage
  cases outcome with
  | read value after => rfl
  | failed error after => exact List.append_assoc _ _ _

end Passage

namespace Tolerant

/-- Whether a reader is another one that ends at its first fault. -/
def Cuts (short whole : Tolerant α) : Prop :=
  ∀ cursor, (short.run cursor).Cuts (whole.run cursor)

/-- What a reader has met stands in front of what it meets with another one behind it. -/
theorem met_prefix (reader : Tolerant α) (next : α → Tolerant β) (cursor : Cursor) :
    (reader.run cursor).met <+: ((reader >>= next).run cursor).met := by
  rw [run_bind]
  cases ran : reader.run cursor with
  | mk faults outcome =>
    cases outcome with
    | read value after =>
      simp only [Passage.met_behind]
      exact List.prefix_append _ _
    | failed error after => exact List.prefix_rfl

/-- A reader that comes over nothing ends at its first fault. -/
theorem cuts_ofReader (reader : Reader α) : (ofReader reader).Cuts (ofReader reader) := by
  intro cursor
  simp only [ofReader]
  cases reader.run cursor with
  | read value after => exact .read value after
  | failed error after => exact .failed rfl

/-- Answering at once is the same in both modes. -/
theorem cuts_pure (value : α) : (pure value : Tolerant α).Cuts (pure value) :=
  cuts_ofReader (pure value)

/-- Readers in a row end at the first fault of the row when those behind a value without a fault
do, at one place. -/
theorem cuts_bind_at {short whole : Tolerant α} {next next' : α → Tolerant β} {cursor : Cursor}
    (first : (short.run cursor).Cuts (whole.run cursor))
    (second : ∀ value after, short.run cursor = ⟨[], .read value after⟩ →
      ((next value).run after).Cuts ((next' value).run after)) :
    ((short >>= next).run cursor).Cuts ((whole >>= next').run cursor) := by
  have front := met_prefix whole next' cursor
  cases ran : short.run cursor with
  | mk faults outcome =>
    rw [ran] at first
    generalize long : whole.run cursor = passage at first front
    cases first with
    | read value after =>
      have cut := second value after ran
      simp only [run_bind, ran, long]
      exact cut
    | @failed error after _ first =>
      obtain ⟨later, met⟩ := front
      have short_run : (short >>= next).run cursor = ⟨[], .failed error after⟩ := by
        rw [run_bind, ran]
      rw [short_run]
      refine .failed ?_
      rw [← met, List.head?_append, first]
      rfl

/-- Readers in a row end at the first fault of the row when each does. -/
theorem Cuts.bind {short whole : Tolerant α} {next next' : α → Tolerant β}
    (first : short.Cuts whole) (second : ∀ value, (next value).Cuts (next' value)) :
    (short >>= next).Cuts (whole >>= next') :=
  fun cursor => cuts_bind_at (first cursor) fun value after _ => second value after

/-- Branches end at their first fault when their items do. -/
theorem cuts_branches {mark : String} {named : mark ≠ ""} {short whole : Tolerant (α ⊕ β)}
    (items : short.Cuts whole) :
    (branches mark named short).Cuts (branches mark named whole) := by
  intro cursor
  induction measured : cursor.rest.length using Nat.strongRecOn generalizing cursor with
  | ind length ih =>
    by_cases here : cursor.word = mark
    · have more := Cursor.rest_ne_nil_of_word named here
      rw [run_branches_of_word here, run_branches_of_word here]
      refine cuts_bind_at (items cursor.take) ?_
      intro branch after ran
      cases branch with
      | inr last => exact .read _ _
      | inl value =>
        have shorter : after.rest.length < length := measured ▸ length_lt_of_take more ran
        exact cuts_bind_at (ih _ shorter after rfl) fun _ _ _ => .read _ _
    · rw [run_branches_of_ne here, run_branches_of_ne here]
      exact .read _ _

end Tolerant

end Syntax

namespace Statement

section Readers

variable {short whole : Tolerant (Statement α)}

/-- An attempt that ends at a fault cuts one that comes over it. -/
theorem cuts_attempt (inBlock : Bool) (cuts : short.Cuts whole) :
    (attempt .abort inBlock short).Cuts (attempt .resume inBlock whole) := by
  intro cursor
  have here := cuts cursor
  simp only [attempt]
  generalize short.run cursor = passage, whole.run cursor = other at here
  cases here with
  | read value after => exact .read [value] after
  | @failed error after _ first =>
    refine .failed ?_
    obtain ⟨faults, outcome⟩ := other
    cases outcome with
    | read value place => exact first
    | failed last place => exact first

/-- The statements of a block are cut at the first fault when each statement is. -/
theorem cuts_body {progresses : short.Progresses} {progresses' : whole.Progresses}
    (cuts : short.Cuts whole) :
    (body .abort short progresses).Cuts (body .resume whole progresses') := by
  intro cursor
  induction measured : cursor.rest.length using Nat.strongRecOn generalizing cursor with
  | ind length ih =>
    by_cases ended : cursor.rest = []
    · rw [run_body_of_end ended, run_body_of_end ended]
      exact .failed rfl
    · by_cases closes : cursor.word = "\x7d"
      · rw [run_body_of_brace closes, run_body_of_brace closes]
        exact .read _ _
      · rw [run_body ended closes, run_body ended closes]
        refine cuts_bind_at (cuts_attempt true cuts cursor.look) ?_
        intro front after ran
        have shorter : after.rest.length < length :=
          measured ▸ length_attempt_lt progresses ended ran
        exact cuts_bind_at (ih _ shorter after rfl) fun _ _ _ => .read _ _

/-- A block is cut at its first fault when its statements are. -/
theorem cuts_readBlock {progresses : short.Progresses} {progresses' : whole.Progresses}
    (cuts : short.Cuts whole) :
    (readBlock .abort short progresses).Cuts (readBlock .resume whole progresses') :=
  (cuts_ofReader _).bind fun _ => cuts_body cuts

/-- A statement is cut at its first fault when a chain is. -/
theorem cuts_readWith {grammar : Grammar α} (chained : short.Cuts whole) :
    (readWith grammar short).Cuts (readWith grammar whole) := by
  intro cursor
  by_cases starts : cursor.word = "if"
  · simp only [readWith, if_pos starts]
    exact chained cursor.look
  · simp only [readWith, if_neg starts]
    cases grammar.read.run cursor.look with
    | read payload after => exact .read _ _
    | failed error after => exact .failed rfl

end Readers

section Chain

variable {short whole : Tolerant (List (Statement α))}

/-- A branch is cut at its first fault when its block is. -/
theorem cuts_readBranch (cuts : short.Cuts whole) : (readBranch short).Cuts (readBranch whole) :=
  (cuts_ofReader _).bind fun _ => (cuts_ofReader _).bind fun _ => (cuts_ofReader _).bind fun _ =>
    cuts.bind fun _ => cuts_pure _

/-- What stands behind an else is cut at its first fault when the block there is. -/
theorem cuts_readElse (cuts : short.Cuts whole) : (readElse short).Cuts (readElse whole) := by
  refine (cuts_ofReader _).bind fun found => ?_
  cases found with
  | true => exact (cuts_readBranch cuts).bind fun _ => cuts_pure _
  | false => exact cuts.bind fun _ => cuts_pure _

/-- A chain is cut at its first fault when its blocks are. -/
theorem cuts_readChain (cuts : short.Cuts whole) : (readChain short).Cuts (readChain whole) :=
  (cuts_ofReader _).bind fun _ => (cuts_readBranch cuts).bind fun _ =>
    (cuts_branches (cuts_readElse cuts)).bind fun _ => cuts_pure _

end Chain

/-- However deep blocks may lie, a statement that was to be read ends at its first fault. -/
theorem cuts_readNested (grammar : Grammar α) (room : Nat) :
    (readNested grammar .abort room).1.Cuts (readNested grammar .resume room).1 := by
  induction room with
  | zero => exact cuts_readWith (cuts_ofReader _)
  | succ room ih => exact cuts_readWith (cuts_readChain (cuts_readBlock ih))

end Statement

namespace Reading

/-- Whether a reading is another one cut at its first fault. -/
structure Cuts (short whole : Reading α) : Prop where
  /-- Its statements are the first ones of the other reading. -/
  statements : short.statements <+: whole.statements
  /-- Its only fault is the first one of the other reading. -/
  faults : short.faults = whole.faults.take 1
  /-- Either both have faults or none has. -/
  clean : short.faults = [] ↔ whole.faults = []
  /-- Without faults, both are one reading. -/
  same : short.faults = [] → short = whole

namespace Cuts

variable {short whole : Reading α}

/-- A reading without faults is cut nowhere. -/
theorem refl (reading : Reading α) (clean : reading.faults = []) : reading.Cuts reading where
  statements := List.prefix_rfl
  faults := by rw [clean, List.take_nil]
  clean := Iff.rfl
  same _ := rfl

/-- Where reading ends, going on can only add to what was read. -/
theorem of_failed {error : Located} (first : whole.faults.head? = some error) :
    Cuts ⟨[], [error]⟩ whole where
  statements := List.nil_prefix
  faults := by
    obtain ⟨later, met⟩ := List.head?_eq_some_iff.1 first
    rw [met]
    rfl
  clean := by
    obtain ⟨later, met⟩ := List.head?_eq_some_iff.1 first
    simp [met]
  same clean := by simp at clean

/-- A statement without a fault comes in front of both readings. -/
theorem after (cuts : short.Cuts whole) (statement : Statement α) :
    (short.after [] [statement]).Cuts (whole.after [] [statement]) where
  statements := (List.prefix_append_right_inj [statement]).2 cuts.statements
  faults := cuts.faults
  clean := cuts.clean
  same clean := by rw [cuts.same clean]

end Cuts

/-- From every place on, the reading that ends at a fault is the one that goes on, cut at its first
fault. -/
theorem cuts_ofCursor (grammar : Grammar α) (cursor : Cursor) :
    (ofCursor grammar .abort cursor).Cuts (ofCursor grammar .resume cursor) := by
  induction measured : cursor.rest.length using Nat.strongRecOn generalizing cursor with
  | ind length ih =>
    by_cases ended : cursor.rest = []
    · rw [ofCursor_end ended, ofCursor_end ended]
      exact .refl _ rfl
    · have here := Statement.cuts_readNested grammar Guard.mostNesting cursor
      change ((Statement.read grammar .abort).run cursor).Cuts
        ((Statement.read grammar .resume).run cursor) at here
      generalize short : (Statement.read grammar .abort).run cursor = passage,
        whole : (Statement.read grammar .resume).run cursor = other at here
      cases here with
      | read statement next =>
        have taken := (Statement.progresses_read grammar .abort).length_lt ended short
        rw [ofCursor_read ended short, ofCursor_read ended whole]
        exact (ih _ (measured ▸ taken) next rfl).after statement
      | @failed error next _ first =>
        rw [ofCursor_failed ended short, if_pos rfl]
        refine .of_failed ?_
        obtain ⟨faults, outcome⟩ := other
        cases outcome with
        | read statement place =>
          -- The chain was read, over the fault that ended it in the other reading.
          rw [ofCursor_read ended whole, after, List.head?_append]
          exact congrArg (Option.or · _) first
        | failed last place =>
          rw [ofCursor_failed ended whole, if_neg (by decide), after, List.head?_append]
          exact congrArg (Option.or · _) first

end Reading

/-- In every grammar and for every list of tokens, reading that ends at a fault is reading that goes
on behind faults, cut at its first one. -/
theorem agreement_of_recoveries (grammar : Grammar α) (tokens : List Token) :
    (Reading.ofTokens grammar .abort tokens).Cuts (Reading.ofTokens grammar .resume tokens) :=
  Reading.cuts_ofCursor grammar (.ofTokens tokens)

end FormPatch
