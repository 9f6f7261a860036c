import FormPatch.Proofs.Statement.Layout

/-!
# What a text that goes on changes

The layout of a text says which part of it a longer text may change: only the last attempt can
have come to the end. Where that attempt read a statement, what follows is read on its own. Where
it left a gap, the gap may go on into what follows.
-/

namespace FormPatch

open Syntax Syntax.Tolerant

variable {α : Type}

/-- Whether a laid out statement is only a gap. -/
def Statement.IsGap : Statement (Mark α) → Prop
  | .expression (.gap _) => True
  | _ => False

/-- A gap is what nothing is kept of. -/
theorem Statement.keep_eq_nil_iff (layout : Statement (Mark α)) :
    Statement.keep Mark.payload? layout = [] ↔ layout.IsGap := by
  cases layout with
  | conditional guard body otherwise =>
    constructor
    · intro none
      rw [Statement.keep] at none
      cases none
    · intro gap
      cases gap
  | expression mark =>
    cases mark with
    | gap tokens => exact ⟨fun _ => trivial, fun _ => rfl⟩
    | expression payload rest =>
      constructor
      · intro none
        rw [Statement.keep] at none
        cases none
      · intro gap
        cases gap

/-- A layout keeps no statement exactly when all of it is gaps. -/
theorem Statement.keepAll_eq_nil_iff (layout : List (Statement (Mark α))) :
    keepAll Mark.payload? layout = [] ↔ ∀ gap ∈ layout, gap.IsGap := by
  induction layout with
  | nil =>
    constructor
    · intro _ gap inside
      cases inside
    · intro _
      rfl
  | cons first layout ih =>
    rw [keepAll, List.append_eq_nil_iff, keep_eq_nil_iff, ih, List.forall_mem_cons]

/-- What is kept of one statement is kept of one of the laid out statements, among gaps. -/
theorem Statement.keepAll_eq_singleton {layout : List (Statement (Mark α))}
    {statement : Statement α} (kept : keepAll Mark.payload? layout = [statement]) :
    ∃ front first behind, layout = front ++ first :: behind ∧ (∀ gap ∈ front, gap.IsGap) ∧
      LaysOut first statement ∧ ∀ gap ∈ behind, gap.IsGap := by
  induction layout with
  | nil => cases kept
  | cons first layout ih =>
    rw [keepAll] at kept
    by_cases gap : first.IsGap
    · rw [(keep_eq_nil_iff first).2 gap, List.nil_append] at kept
      obtain ⟨front, next, behind, split, gaps, lays, rest⟩ := ih kept
      refine ⟨first :: front, next, behind, by rw [split, List.cons_append], ?_, lays, rest⟩
      intro other inside
      cases inside with
      | head => exact gap
      | tail _ inside => exact gaps other inside
    · have some : keep Mark.payload? first ≠ [] := fun none => gap ((keep_eq_nil_iff first).1 none)
      rcases List.append_eq_singleton_iff.1 kept with ⟨none, _⟩ | ⟨lays, none⟩
      · exact absurd none some
      · refine ⟨[], first, layout, rfl, ?_, lays, (keepAll_eq_nil_iff layout).1 none⟩
        intro other inside
        cases inside

/-- A chain that was read is a conditional. -/
theorem Statement.readChain_eq_read {block : Tolerant (List (Statement α))} {cursor after : Cursor}
    {faults : List Located} {statement : Statement α}
    (ran : (readChain block).run cursor = ⟨faults, .read statement after⟩) :
    ∃ guard body otherwise, statement = .conditional guard body otherwise := by
  obtain ⟨_, _, _, _, _, tail, _⟩ := bind_eq_read.1 ran
  obtain ⟨_, ⟨guard, body⟩, _, _, _, rest, _⟩ := bind_eq_read.1 tail
  obtain ⟨_, ⟨others, last⟩, _, _, _, done, _⟩ := bind_eq_read.1 rest
  obtain ⟨same, _⟩ := ofReader_eq_read.1 done
  obtain ⟨rfl, _⟩ := Reader.pure_eq_read.1 same
  exact ⟨guard, body, _, rfl⟩

/-- An expression that was read is read by the grammar. -/
theorem Statement.read_of_expression {grammar : Grammar α} {recovery : Recovery}
    {cursor after : Cursor} {faults : List Located} {payload : α}
    (ran : (read grammar recovery).run cursor = ⟨faults, .read (.expression payload) after⟩) :
    grammar.read.run cursor.look = .read payload after := by
  obtain ⟨room, unfolded⟩ := read_eq grammar recovery
  by_cases starts : cursor.word = "if"
  · simp only [unfolded, readWith, if_pos starts] at ran
    obtain ⟨_, _, _, wrong⟩ := readChain_eq_read ran
    cases wrong
  · simp only [unfolded, readWith, if_neg starts, Passage.mk.injEq] at ran
    obtain ⟨_, mapped⟩ := ran
    cases found : grammar.read.run cursor.look with
    | failed error place => simp [found, Outcome.map] at mapped
    | read other place =>
      simp only [found, Outcome.map, Outcome.read.injEq, Statement.expression.injEq] at mapped
      obtain ⟨rfl, rfl⟩ := mapped
      rfl

/-- Behind a value, a reader leaves what the reader behind it leaves. -/
theorem Syntax.Tolerant.bind_suffix_of_read {β γ : Type} {reader : Tolerant β}
    {next : β → Tolerant γ} {cursor after : Cursor} {faults : List Located} {value : β}
    {tokens : List Token} (ran : reader.run cursor = ⟨faults, .read value after⟩)
    (left : ((next value).run after).cursor.rest <:+ tokens) :
    ((reader >>= next).run cursor).cursor.rest <:+ tokens := by
  rw [run_bind, ran]
  exact left

/-- From `if`, a guard in parentheses and an opening brace on, an attempt takes at least those. -/
theorem Statement.rest_read_of_header {grammar : Grammar α} {recovery : Recovery}
    {word opening closing brace : Token} {guard behind : List Token} {value : Guard}
    {shown shown' : Position} (isWord : word.text = "if") (opens : opening.text = "(")
    (closes : closing.text = ")") (starts : brace.text = "\x7b")
    (accepted : Guard.read.run ⟨guard ++ closing :: brace :: behind, opening.position⟩ =
      .read value ⟨closing :: brace :: behind, shown'⟩) :
    ((read grammar recovery).run
      ⟨word :: opening :: guard ++ closing :: brace :: behind, shown⟩).cursor.rest <:+ behind := by
  obtain ⟨room, unfolded⟩ := read_eq grammar recovery
  have chain : (Cursor.mk (word :: opening :: guard ++ closing :: brace :: behind) shown).word =
    "if" := isWord
  rw [unfolded]
  simp only [readWith, if_pos chain]
  have first : (ofReader (Reader.expect "if")).run
      (Cursor.mk (word :: opening :: guard ++ closing :: brace :: behind) shown).look =
        ⟨[], .read () ⟨opening :: guard ++ closing :: brace :: behind, word.position⟩⟩ :=
    ofReader_eq_read.2 ⟨Reader.expect_eq_read.2 ⟨isWord, rfl⟩, rfl⟩
  have second : (ofReader (Reader.expect "(")).run
      ⟨opening :: guard ++ closing :: brace :: behind, word.position⟩ =
        ⟨[], .read () ⟨guard ++ closing :: brace :: behind, opening.position⟩⟩ :=
    ofReader_eq_read.2 ⟨Reader.expect_eq_read.2 ⟨opens, rfl⟩, rfl⟩
  have third : (ofReader Guard.read).run
      ⟨guard ++ closing :: brace :: behind, opening.position⟩ =
        ⟨[], .read value ⟨closing :: brace :: behind, shown'⟩⟩ :=
    ofReader_eq_read.2 ⟨accepted, rfl⟩
  have fourth : (ofReader (Reader.expect ")")).run ⟨closing :: brace :: behind, shown'⟩ =
        ⟨[], .read () ⟨brace :: behind, closing.position⟩⟩ :=
    ofReader_eq_read.2 ⟨Reader.expect_eq_read.2 ⟨closes, rfl⟩, rfl⟩
  have fifth : (ofReader (Reader.expect "\x7b")).run ⟨brace :: behind, closing.position⟩ =
        ⟨[], .read () ⟨behind, brace.position⟩⟩ :=
    ofReader_eq_read.2 ⟨Reader.expect_eq_read.2 ⟨starts, rfl⟩, rfl⟩
  refine bind_suffix_of_read first ?_
  refine (bind_suffix _ _ _).trans ?_
  refine bind_suffix_of_read second ?_
  refine bind_suffix_of_read third ?_
  refine bind_suffix_of_read fourth ?_
  refine (bind_suffix _ _ _).trans ?_
  refine bind_suffix_of_read fifth ?_
  exact (body _ _ _).suffix _

section Extension

variable {grammar : Grammar α}

/-- Only the end of a text has an empty layout. -/
theorem layOut_eq_nil {cursor : Cursor} (none : layOut grammar cursor = []) :
    cursor.rest = [] := by
  by_cases ended : cursor.rest = []
  · exact ended
  · rw [layOut_cons ended] at none
    cases none

/-- The first attempt on a text reads a statement or leaves a gap. -/
theorem layOut_cases {cursor : Cursor} {first : Statement (Mark α)}
    {layout : List (Statement (Mark α))} (split : layOut grammar cursor = first :: layout) :
    cursor.rest ≠ [] ∧
      ((∃ faults statement next,
          (Statement.read grammar .resume).run cursor = ⟨faults, .read statement next⟩ ∧
            Statement.LaysOut first statement ∧ layout = layOut grammar next) ∨
        ∃ faults error next,
          (Statement.read grammar .resume).run cursor = ⟨faults, .failed error next⟩ ∧
            first.IsGap ∧ layout = layOut grammar (next.recover false)) := by
  have more : cursor.rest ≠ [] := by
    intro ended
    rw [layOut_end ended] at split
    cases split
  refine ⟨more, ?_⟩
  rw [layOut_cons more, List.cons.injEq] at split
  obtain ⟨rfl, rfl⟩ := split
  cases ran : (Statement.read grammar .resume).run cursor with
  | mk faults outcome =>
    cases outcome with
    | read statement next =>
      obtain ⟨layout, lays, settled⟩ := settle_of_read false ran
      rw [settled]
      exact .inl ⟨faults, statement, next, rfl, lays, rfl⟩
    | failed error next =>
      rw [settle_of_failed false ran]
      exact .inr ⟨faults, error, next, rfl, trivial, rfl⟩

/-- Where recovery leaves a token, a text that goes on is recovered alike. -/
theorem Syntax.Cursor.recover_extend_of_ne {cursor : Cursor} {inBlock : Bool}
    (more : (cursor.recover inBlock).rest ≠ []) (later : List Token) :
    (cursor.extend later).recover inBlock = (cursor.recover inBlock).extend later := by
  rcases cursor.recover_extend inBlock later with same | ⟨ended, _⟩
  · exact same
  · exact absurd ended more

/-- Where an attempt leaves a token, a text that goes on starts with the same attempt. -/
theorem ofCursor_extend_of_ne (streams : grammar.Streams) {cursor : Cursor}
    {first : Statement (Mark α)} {layout : List (Statement (Mark α))}
    (split : layOut grammar cursor = first :: layout) (more : layout ≠ []) (later : List Token) :
    ∃ faults next, layout = layOut grammar next ∧
      next.rest <:+ ((Statement.read grammar .resume).run cursor).cursor.rest ∧
      Reading.ofCursor grammar .resume cursor =
        (Reading.ofCursor grammar .resume next).after faults
          (Statement.keep Mark.payload? first) ∧
      Reading.ofCursor grammar .resume (cursor.extend later) =
        (Reading.ofCursor grammar .resume (next.extend later)).after faults
          (Statement.keep Mark.payload? first) := by
  obtain ⟨left, attempt⟩ := layOut_cases split
  have longer : (cursor.extend later).rest ≠ [] := by simp [left]
  rcases attempt with ⟨faults, statement, next, ran, lays, rfl⟩ |
    ⟨faults, error, next, ran, gap, rfl⟩
  · have rest : next.rest ≠ [] := fun ended => more (layOut_end ended)
    have streamed := (Statement.streams_read streams .resume cursor).run_extend
      (by rwa [ran]) later
    rw [ran] at streamed ⊢
    have whole : Statement.keep Mark.payload? first = [statement] := lays
    refine ⟨faults, next, rfl, List.suffix_rfl, ?_, ?_⟩
    · rw [Reading.ofCursor_read left ran, whole]
    · rw [Reading.ofCursor_read longer streamed, whole]
  · have rest : (next.recover false).rest ≠ [] := fun ended => more (layOut_end ended)
    have ahead : next.rest ≠ [] := by
      intro ended
      have suffix := next.recover_suffix false
      rw [ended] at suffix
      exact rest (List.suffix_nil.1 suffix)
    have streamed := (Statement.streams_read streams .resume cursor).run_extend
      (by rwa [ran]) later
    rw [ran] at streamed ⊢
    have none := (Statement.keep_eq_nil_iff first).2 gap
    refine ⟨faults ++ [error], next.recover false, rfl, next.recover_suffix false, ?_, ?_⟩
    · rw [Reading.ofCursor_failed left ran, none, if_neg (by decide)]
    · rw [Reading.ofCursor_failed longer streamed, none, if_neg (by decide),
        Cursor.recover_extend_of_ne rest]

/-- Where the last attempt on a text read a statement, what the text goes on with is read on its
own. -/
theorem ofCursor_extend_of_last (streams : grammar.Streams) {cursor : Cursor}
    {front : List (Statement (Mark α))} {last : Statement (Mark α)}
    (split : layOut grammar cursor = front ++ [last]) (whole : ¬last.IsGap) {later : List Token}
    (apart : ¬StartsWith "else" later) :
    Reading.ofCursor grammar .resume (cursor.extend later) =
      (Reading.ofTokens grammar .resume later).after
        (Reading.ofCursor grammar .resume cursor).faults
        (Reading.ofCursor grammar .resume cursor).statements := by
  induction front generalizing cursor with
  | nil =>
    obtain ⟨left, attempt⟩ := layOut_cases split
    have longer : (cursor.extend later).rest ≠ [] := by simp [left]
    rcases attempt with ⟨faults, statement, next, ran, lays, ended⟩ |
      ⟨faults, error, next, ran, gap, ended⟩
    · obtain ⟨shown, ran'⟩ := Statement.holdsBefore_read streams .resume apart _ _ _ _ ran
      have none := layOut_eq_nil ended.symm
      have same : (⟨next.rest ++ later, shown⟩ : Cursor).rest = (Cursor.ofTokens later).rest := by
        rw [none]
        rfl
      rw [Reading.ofCursor_read longer ran', Reading.ofCursor_congr same,
        Reading.ofCursor_read left ran, Reading.ofCursor_end none]
      simp only [Reading.after, List.append_nil]
      rfl
    · exact absurd gap whole
  | cons first front ih =>
    rw [List.cons_append] at split
    have more : front ++ [last] ≠ [] := List.append_ne_nil_of_right_ne_nil _ (List.cons_ne_nil _ _)
    obtain ⟨faults, next, same, _, alone, extended⟩ :=
      ofCursor_extend_of_ne streams split more later
    rw [extended, alone, ih same.symm, Reading.after_after]
    rfl

end Extension

end FormPatch
