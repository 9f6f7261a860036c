import FormPatch.Proofs.Statement.Attempts
import FormPatch.Proofs.Statement.Parts

/-!
# Reading progresses and ends

Each attempt to read a statement takes its first token, and no other attempt starts there: those
within a chain start behind its first word, and the next one starts where the last one has ended
or recovery has stopped. Every statement of the tree and every fault is the end of an attempt of
its own, so there are at most as many of them as tokens.

Main statement: in every grammar, with either recovery and for every token list, each attempt
takes a token and starts at one of its own, statements and faults are together at most as many as
tokens, and reading that goes on behind faults leaves no token.
-/

namespace FormPatch

open Syntax Syntax.Tolerant

variable {α β γ : Type}

namespace Syntax.Passage

/-- Whether a run has met the faults at the ends of some attempts. Where reading goes on, it comes
over each of them; where reading ends, each of them is the one that ends it. -/
def Meets (recovery : Recovery) (passage : Passage β) (errors : List Located) : Prop :=
  match recovery with
  | .abort => passage.faults = [] ∧ ∀ error ∈ errors, ∃ after, passage.outcome = .failed error after
  | .resume => passage.faults.Perm errors

/-- A run over no faults meets those of no attempts. -/
theorem meets_nil (recovery : Recovery) (outcome : Outcome β) :
    (⟨[], outcome⟩ : Passage β).Meets recovery [] := by
  cases recovery with
  | abort => exact ⟨rfl, by simp⟩
  | resume => exact List.Perm.nil

/-- Where a fault ends reading, a value is answered over no fault. -/
theorem Meets.clean {faults errors : List Located} {value : β} {after : Cursor}
    (met : (⟨faults, .read value after⟩ : Passage β).Meets .abort errors) :
    faults = [] ∧ errors = [] := by
  refine ⟨met.1, List.eq_nil_iff_forall_not_mem.2 fun error here => ?_⟩
  obtain ⟨place, failed⟩ := met.2 error here
  cases failed

/-- Behind a value, the faults of two runs are met one after the other. -/
theorem Meets.behind {recovery : Recovery} {faults errors errors' : List Located} {value : β}
    {after : Cursor} {passage : Passage γ}
    (first : (⟨faults, .read value after⟩ : Passage β).Meets recovery errors)
    (second : passage.Meets recovery errors') :
    (passage.behind faults).Meets recovery (errors ++ errors') := by
  cases recovery with
  | abort =>
    obtain ⟨rfl, rfl⟩ := first.clean
    exact second
  | resume => exact first.append second

/-- The value that a failed run would have answered does not matter. -/
theorem Meets.failed {recovery : Recovery} {faults errors : List Located} {error : Located}
    {after : Cursor} (met : (⟨faults, .failed error after⟩ : Passage β).Meets recovery errors) :
    (⟨faults, .failed error after⟩ : Passage γ).Meets recovery errors := by
  cases recovery with
  | abort =>
    refine ⟨met.1, fun other here => ?_⟩
    obtain ⟨place, same⟩ := met.2 other here
    cases same
    exact ⟨after, rfl⟩
  | resume => exact met

end Syntax.Passage

/-- A reader that progresses leaves an end of what is behind the next token. -/
theorem Syntax.Tolerant.Progresses.suffix_tail {reader : Tolerant β}
    (progresses : reader.Progresses) {cursor : Cursor} (more : cursor.rest ≠ []) :
    (reader.run cursor).cursor.rest <:+ cursor.rest.tail := by
  refine List.suffix_of_suffix_length_le (reader.suffix cursor) (List.tail_suffix _) ?_
  have taken := progresses cursor more
  rw [List.length_tail]
  omega

namespace Statement

/-- All statements in some statements are those in front and those behind. -/
theorem all_append (front behind : List (Statement α)) :
    all (front ++ behind) = all front ++ all behind := by
  induction front with
  | nil => rfl
  | cons statement front ih => simp only [List.cons_append, all, ih, List.append_assoc]

/-- The statements in a chain are those in its guarded blocks and in its last block. -/
theorem all_ofBranches (others : List (Guard × List (Statement α)))
    (last : Option (List (Statement α))) :
    (Otherwise.ofBranches others last).all =
      others.flatMap (fun branch => all branch.2) ++ last.elim [] all := by
  induction others with
  | nil => cases last <;> rfl
  | cons branch others ih =>
    simp only [Otherwise.ofBranches, Otherwise.all, ih, List.flatMap_cons, List.append_assoc]

end Statement

/-- Whether an attempt is a run of the reader of statements, with some room for blocks. -/
def Attempt.IsMade (grammar : Grammar α) (recovery : Recovery) (attempt : Attempt α) : Prop :=
  ∃ room, attempt.outcome =
    ((Statement.readNested grammar recovery room).1.run attempt.start).outcome

/-- An attempt takes a token where there is one. -/
theorem Attempt.IsMade.takes {grammar : Grammar α} {recovery : Recovery} {attempt : Attempt α}
    (made : attempt.IsMade grammar recovery) (more : attempt.start.rest ≠ []) :
    attempt.outcome.cursor.rest <:+ attempt.start.rest ∧
      attempt.outcome.cursor.rest.length < attempt.start.rest.length := by
  obtain ⟨room, same⟩ := made
  rw [same]
  exact ⟨(Statement.readNested grammar recovery room).1.suffix attempt.start,
    (Statement.readNested grammar recovery room).2 attempt.start more⟩

/-- Whether some attempts are those of a run over some tokens. The run starts with some statements
given, and the statements that its value owns are among these and those that were read. -/
structure IsTrail (grammar : Grammar α) (recovery : Recovery) (tokens : List Token)
    (given : List (Statement α)) (own : β → List (Statement α)) (passage : Passage β)
    (trail : List (Attempt α)) : Prop where
  /-- What is left is the end of the tokens. -/
  left : passage.cursor.rest <:+ tokens
  /-- Each attempt is a run of the reader of statements. -/
  made : ∀ attempt ∈ trail, attempt.IsMade grammar recovery
  /-- Each attempt starts among the tokens. -/
  starts : ∀ attempt ∈ trail, attempt.start.rest <:+ tokens
  /-- Each attempt starts in front of what is left. -/
  ends : ∀ attempt ∈ trail, passage.cursor.rest.length < attempt.start.rest.length
  /-- Each attempt starts behind the start of the one before it. -/
  advances : trail.Pairwise fun first later => later.start.rest.length < first.start.rest.length
  /-- The faults at the ends of attempts have been met. -/
  meets : passage.Meets recovery (Attempt.faults trail)
  /-- The statements of the value were given or read. -/
  yields : ∀ value after, passage.outcome = .read value after →
    (own value).Sublist (given ++ Attempt.statements trail)

section Trails

variable {grammar : Grammar α} {recovery : Recovery} {tokens : List Token} {cursor : Cursor}
  {given : List (Statement α)} {own : β → List (Statement α)} {later : γ → List (Statement α)}

namespace IsTrail

variable {reader : Tolerant β} {next : β → Tolerant γ} {passage : Passage β}
  {trail behind : List (Attempt α)} {faults : List Located}

/-- A run without attempts. -/
theorem nil {outcome : Outcome β} (left : outcome.cursor.rest <:+ tokens)
    (yields : ∀ value after, outcome = .read value after → (own value).Sublist given) :
    IsTrail grammar recovery tokens given own ⟨[], outcome⟩ [] where
  left := left
  made := by simp
  starts := by simp
  ends := by simp
  advances := List.Pairwise.nil
  meets := Passage.meets_nil recovery outcome
  yields value after ran := by simpa [Attempt.statements] using yields value after ran

/-- Each attempt of a run takes a token. -/
theorem takes (kept : IsTrail grammar recovery tokens given own passage trail) :
    ∀ attempt ∈ trail, attempt.outcome.cursor.rest <:+ attempt.start.rest ∧
      attempt.outcome.cursor.rest.length < attempt.start.rest.length := by
  intro attempt member
  have more : 0 < attempt.start.rest.length := Nat.zero_lt_of_lt (kept.ends attempt member)
  exact (kept.made attempt member).takes (List.length_pos_iff.1 more)

/-- A run over the end of some tokens is one over these. -/
theorem widen (kept : IsTrail grammar recovery tokens given own passage trail)
    {wider : List Token} (within : tokens <:+ wider) :
    IsTrail grammar recovery wider given own passage trail where
  left := kept.left.trans within
  made := kept.made
  starts attempt member := (kept.starts attempt member).trans within
  ends := kept.ends
  advances := kept.advances
  meets := kept.meets
  yields := kept.yields

/-- Statements that are given beforehand come in front. -/
theorem behindGiven (kept : IsTrail grammar recovery tokens [] own passage trail)
    (given : List (Statement α)) :
    IsTrail grammar recovery tokens given (fun value => given ++ own value) passage trail where
  left := kept.left
  made := kept.made
  starts := kept.starts
  ends := kept.ends
  advances := kept.advances
  meets := kept.meets
  yields value after ran := (kept.yields value after ran).append_left given

/-- A run that goes on behind a value makes the attempts of both parts. -/
theorem bind_read {value : β} {after : Cursor}
    (head : IsTrail grammar recovery tokens given own (reader.run cursor) trail)
    (ran : reader.run cursor = ⟨faults, .read value after⟩)
    (tail : IsTrail grammar recovery after.rest (own value) later ((next value).run after) behind) :
    IsTrail grammar recovery tokens given later ((reader >>= next).run cursor)
      (trail ++ behind) := by
  have joined : (reader >>= next).run cursor = ((next value).run after).behind faults := by
    rw [run_bind, ran]
  rw [joined]
  rw [ran] at head
  have kept : after.rest <:+ tokens := head.left
  constructor
  case left => exact tail.left.trans kept
  case made => exact List.forall_mem_append.2 ⟨head.made, tail.made⟩
  case starts =>
    refine List.forall_mem_append.2 ⟨head.starts, fun attempt member => ?_⟩
    exact (tail.starts attempt member).trans kept
  case ends =>
    refine List.forall_mem_append.2 ⟨fun attempt member => ?_, tail.ends⟩
    exact Nat.lt_of_le_of_lt tail.left.length_le (head.ends attempt member)
  case advances =>
    refine List.pairwise_append.2 ⟨head.advances, tail.advances, fun first early last late => ?_⟩
    exact Nat.lt_of_le_of_lt (tail.starts last late).length_le (head.ends first early)
  case meets =>
    rw [Attempt.faults_append]
    exact head.meets.behind tail.meets
  case yields =>
    intro found place answered
    have first := head.yields value after rfl
    have second := tail.yields found place answered
    rw [Attempt.statements_append, ← List.append_assoc]
    exact second.trans (first.append_right _)

/-- A run that ends at a fault makes the attempts in front of it. -/
theorem bind_failed {error : Located} {after : Cursor}
    (head : IsTrail grammar recovery tokens given own (reader.run cursor) trail)
    (ran : reader.run cursor = ⟨faults, .failed error after⟩) :
    IsTrail grammar recovery tokens given later ((reader >>= next).run cursor) (trail ++ []) := by
  have stopped : (reader >>= next).run cursor = ⟨faults, .failed error after⟩ := by
    rw [run_bind, ran]
  rw [stopped, List.append_nil]
  rw [ran] at head
  exact ⟨head.left, head.made, head.starts, head.ends, head.advances, head.meets.failed,
    fun _ _ answered => by cases answered⟩

/-- Another value that owns no other statements can be answered. -/
theorem map {change : β → γ}
    (head : IsTrail grammar recovery tokens given own (reader.run cursor) trail)
    (covers : ∀ value, (later (change value)).Sublist (own value)) :
    IsTrail grammar recovery tokens given later
      ((reader >>= fun value => pure (change value)).run cursor) trail := by
  rw [← List.append_nil trail]
  cases ran : reader.run cursor with
  | mk faults outcome =>
    cases outcome with
    | read value after =>
      refine head.bind_read ran (.nil List.suffix_rfl fun found place answered => ?_)
      cases answered
      exact covers value
    | failed error after => exact head.bind_failed ran

end IsTrail

namespace Followed

/-- Whether the runs of a reader make the attempts that are listed. -/
def Tracks (grammar : Grammar α) (recovery : Recovery) (given : List (Statement α))
    (own : β → List (Statement α)) (followed : Followed α β) : Prop :=
  ∀ cursor, IsTrail grammar recovery cursor.rest given own (followed.reader.run cursor)
    (followed.trail cursor)

/-- A value that is answered at once needs no attempt, and owns only what is given. -/
theorem tracks_pure {value : β} (covers : (own value).Sublist given) :
    (pure value : Followed α β).Tracks grammar recovery given own := by
  refine fun cursor => .nil List.suffix_rfl fun found place answered => ?_
  cases answered
  exact covers

/-- Attempts are tracked through a reader and the one that goes on with its value. -/
theorem Tracks.bind {first : Followed α β} {next : β → Followed α γ}
    (head : first.Tracks grammar recovery given own)
    (tail : ∀ value, (next value).Tracks grammar recovery (own value) later) :
    (first >>= next).Tracks grammar recovery given later := by
  intro cursor
  show IsTrail grammar recovery cursor.rest given later
    ((first.reader >>= fun value => (next value).reader).run cursor) (first.trail cursor ++ _)
  split
  · next faults value after ran => exact (head cursor).bind_read ran (tail value after)
  · next faults error after ran => exact (head cursor).bind_failed ran

/-- A reader that attempts no statement owns none. -/
theorem Tracks.after {reader : Reader β} {next : β → Followed α γ}
    (tail : ∀ value, (next value).Tracks grammar recovery given later) :
    (ofReader reader >>= next).Tracks grammar recovery given later := by
  have head : (ofReader reader : Followed α β).Tracks grammar recovery given fun _ => given :=
    fun cursor => .nil (reader.suffix cursor) fun _ _ _ => List.Sublist.refl given
  exact head.bind tail

/-- Branches own the statements of the items. -/
theorem tracks_branches {mark : String} {named : mark ≠ ""} {item : Followed α (β ⊕ γ)}
    (items : item.Tracks grammar recovery [] (Sum.elim own later)) :
    (branches mark named item).Tracks grammar recovery [] fun found =>
      found.1.flatMap own ++ found.2.elim [] later := by
  intro cursor
  show IsTrail grammar recovery cursor.rest [] _
    ((Tolerant.branches mark named item.reader).run cursor) (trailBranches mark named item cursor)
  induction measured : cursor.rest.length using Nat.strongRecOn generalizing cursor with
  | ind length ih =>
    by_cases here : cursor.word = mark
    · have more := Cursor.rest_ne_nil_of_word named here
      have first := (items cursor.take).widen cursor.take_suffix
      rw [run_branches_of_word here, trailBranches, dif_pos here]
      split
      · next faults value after ran =>
        have shorter : after.rest.length < length := measured ▸ length_lt_of_take more ran
        have others := (ih _ shorter after rfl).behindGiven (own value)
        refine first.bind_read ran (others.map fun found => ?_)
        simp
      · next faults last after ran =>
        refine first.bind_read ran (.nil List.suffix_rfl fun found place answered => ?_)
        cases answered
        simp
      · next faults error after ran => exact first.bind_failed ran
    · rw [run_branches_of_ne here, trailBranches, dif_neg here]
      refine .nil (by simp) fun found place answered => ?_
      cases answered
      simp

section Blocks

variable {statement : Followed α (Statement α)} {progresses : statement.reader.Progresses}
  {block : Followed α (List (Statement α))}

/-- An attempt that fails ends with one more fault than it has met. -/
theorem meets_attempt
    (met : (statement.reader.run cursor).Meets recovery (Attempt.faults (statement.trail cursor)))
    (inBlock : Bool) :
    ((statement.attempt recovery inBlock).reader.run cursor).Meets recovery
      (Attempt.faults ((statement.attempt recovery inBlock).trail cursor)) := by
  simp only [attempt, Statement.attempt]
  cases ran : statement.reader.run cursor with
  | mk faults outcome =>
    rw [ran] at met
    cases outcome with
    | read first after =>
      cases recovery with
      | abort =>
        obtain ⟨clean, none⟩ := met.clean
        refine ⟨clean, fun error member => ?_⟩
        have listed : error ∈ Attempt.faults (statement.trail cursor) := member
        rw [none] at listed
        cases listed
      | resume => exact met
    | failed error after =>
      cases recovery with
      | abort =>
        refine ⟨met.1, List.forall_mem_cons.2 ⟨⟨after, rfl⟩, fun other member => ?_⟩⟩
        obtain ⟨place, failed⟩ := met.2 other member
        cases failed
        exact ⟨after, rfl⟩
      | resume => exact (List.perm_append_singleton error faults).trans (met.cons error)

/-- An attempt that succeeds has read one more statement than its blocks hold. -/
theorem yields_attempt
    (owned : ∀ first after, (statement.reader.run cursor).outcome = .read first after →
      first.within.Sublist (Attempt.statements (statement.trail cursor)))
    (inBlock : Bool) (front : List (Statement α)) (after : Cursor)
    (ran : ((statement.attempt recovery inBlock).reader.run cursor).outcome = .read front after) :
    (Statement.all front).Sublist
      (Attempt.statements ((statement.attempt recovery inBlock).trail cursor)) := by
  simp only [attempt, Statement.attempt] at ran ⊢
  cases found : statement.reader.run cursor with
  | mk faults outcome =>
    rw [found] at ran owned
    cases outcome with
    | read first place =>
      cases ran
      have few := owned first after rfl
      simpa [Statement.all, Attempt.statements, Attempt.statement?] using few
    | failed error place =>
      simp only at ran
      split at ran
      · cases ran
      · cases ran
        exact List.nil_sublist _

/-- An attempt comes in front of those that it makes behind its first word. -/
theorem isTrail_attempt (progresses : statement.reader.Progresses) (more : cursor.rest ≠ [])
    (made : Attempt.IsMade grammar recovery ⟨cursor, (statement.reader.run cursor).outcome⟩)
    (inside : IsTrail grammar recovery cursor.rest.tail [] Statement.within
      (statement.reader.run cursor) (statement.trail cursor)) (inBlock : Bool) :
    IsTrail grammar recovery cursor.rest [] Statement.all
      ((statement.attempt recovery inBlock).reader.run cursor)
      ((statement.attempt recovery inBlock).trail cursor) := by
  have left := Statement.attempt_suffix recovery inBlock statement.reader cursor
  have taken := progresses cursor more
  have behind : cursor.rest.tail.length < cursor.rest.length := by
    have some := List.length_pos_iff.2 more
    rw [List.length_tail]
    omega
  constructor
  case left => exact left.trans (statement.reader.suffix cursor)
  case made => exact List.forall_mem_cons.2 ⟨made, inside.made⟩
  case starts =>
    refine List.forall_mem_cons.2 ⟨List.suffix_rfl, fun attempt member => ?_⟩
    exact (inside.starts attempt member).trans (List.tail_suffix _)
  case ends =>
    refine List.forall_mem_cons.2 ⟨Nat.lt_of_le_of_lt left.length_le taken,
      fun attempt member => ?_⟩
    exact Nat.lt_of_le_of_lt left.length_le (inside.ends attempt member)
  case advances =>
    refine List.pairwise_cons.2 ⟨fun attempt member => ?_, inside.advances⟩
    exact Nat.lt_of_le_of_lt (inside.starts attempt member).length_le behind
  case meets => exact meets_attempt inside.meets inBlock
  case yields => exact yields_attempt inside.yields inBlock

/-- The attempts of a block are those of its statements. -/
theorem tracks_body
    (attempts : ∀ cursor : Cursor, cursor.rest ≠ [] →
      IsTrail grammar recovery cursor.rest [] Statement.all
        ((statement.attempt recovery true).reader.run cursor)
        ((statement.attempt recovery true).trail cursor)) :
    (body recovery statement progresses).Tracks grammar recovery [] Statement.all := by
  intro cursor
  show IsTrail grammar recovery cursor.rest [] _
    ((Statement.body recovery statement.reader progresses).run cursor)
    (trailBody recovery statement progresses cursor)
  induction measured : cursor.rest.length using Nat.strongRecOn generalizing cursor with
  | ind length ih =>
    by_cases ended : cursor.rest = []
    · rw [Statement.run_body_of_end ended, trailBody, dif_pos ended]
      exact .nil List.suffix_rfl fun _ _ answered => by cases answered
    · by_cases closes : cursor.word = "\x7d"
      · rw [Statement.run_body_of_brace closes, trailBody, dif_neg ended, if_pos closes]
        refine .nil cursor.take_suffix fun found place answered => ?_
        cases answered
        exact List.nil_sublist _
      · have first := attempts cursor.look (by rwa [Cursor.rest_look])
        rw [Cursor.rest_look] at first
        rw [Statement.run_body ended closes, trailBody, dif_neg ended, if_neg closes]
        split
        · next faults front after ran =>
          have shorter : after.rest.length < length :=
            measured ▸ Statement.length_attempt_lt progresses ended ran
          have others := (ih _ shorter after rfl).behindGiven (Statement.all front)
          refine first.bind_read ran (others.map fun found => ?_)
          simp only [Statement.all_append, List.Sublist.refl]
        · next faults error after ran => exact first.bind_failed ran

/-- The attempts of a branch are those of its block. -/
theorem tracks_branch (blocks : block.Tracks grammar recovery [] Statement.all) :
    (branch block).Tracks grammar recovery [] fun branch => Statement.all branch.2 :=
  .after fun _ => .after fun _ => .after fun _ => blocks.bind fun _ =>
    tracks_pure (List.Sublist.refl _)

/-- The attempts behind an else are those of the block there. -/
theorem tracks_behindElse (blocks : block.Tracks grammar recovery [] Statement.all) :
    (behindElse block).Tracks grammar recovery []
      (Sum.elim (fun branch => Statement.all branch.2) Statement.all) := by
  refine .after fun found => ?_
  cases found with
  | true => exact (tracks_branch blocks).bind fun _ => tracks_pure (List.Sublist.refl _)
  | false => exact blocks.bind fun _ => tracks_pure (List.Sublist.refl _)

/-- The attempts of a chain are those of its blocks. -/
theorem tracks_behindIf (blocks : block.Tracks grammar recovery [] Statement.all) :
    (behindIf block).Tracks grammar recovery [] Statement.within := by
  refine (tracks_branch blocks).bind fun first => ?_
  have others : (branches "else" else_ne_empty (behindElse block)).Tracks grammar recovery [] _ :=
    tracks_branches (tracks_behindElse blocks)
  refine Tracks.bind (fun cursor => (others cursor).behindGiven (Statement.all first.2))
    fun found => tracks_pure ?_
  simp only [Statement.within, Statement.all_ofBranches, List.Sublist.refl]

end Blocks

/-- A statement makes the attempts of a chain, or none. -/
theorem isTrail_readWith {chain : Tolerant (Statement α)} {trail : List (Attempt α)}
    (progresses : (Statement.readWith grammar chain).Progresses) (more : cursor.rest ≠ [])
    (chained : cursor.word = "if" →
      IsTrail grammar recovery cursor.rest.tail [] Statement.within (chain.run cursor.look) trail)
    (none : cursor.word ≠ "if" → trail = []) :
    IsTrail grammar recovery cursor.rest.tail [] Statement.within
      ((Statement.readWith grammar chain).run cursor) trail := by
  have left := progresses.suffix_tail more
  by_cases here : cursor.word = "if"
  · have run : (Statement.readWith grammar chain).run cursor = chain.run cursor.look := if_pos here
    rw [run]
    exact chained here
  · have run : (Statement.readWith grammar chain).run cursor =
        ⟨[], (grammar.read.run cursor.look).map .expression⟩ := if_neg here
    rw [run] at left ⊢
    rw [none here]
    refine .nil left fun statement after answered => ?_
    cases expression : grammar.read.run cursor.look with
    | read payload place =>
      rw [expression] at answered
      cases answered
      exact List.nil_sublist _
    | failed error place =>
      rw [expression] at answered
      cases answered

/-- However much room there is, a statement makes its attempts behind its first word. -/
theorem isTrail_nested (grammar : Grammar α) (recovery : Recovery) (room : Nat)
    (more : cursor.rest ≠ []) :
    IsTrail grammar recovery cursor.rest.tail [] Statement.within
      ((nested grammar recovery room).reader.run cursor)
      ((nested grammar recovery room).trail cursor) := by
  have progresses := (Statement.readNested grammar recovery room).2
  induction room generalizing cursor with
  | zero =>
    refine isTrail_readWith progresses more (fun here => ?_) fun _ => rfl
    -- A chain for which no room is left is refused at its first word.
    have run : (Statement.readWith grammar Statement.readTooDeep).run cursor =
        Statement.readTooDeep.run cursor.look := if_pos here
    have left : ((Statement.readWith grammar Statement.readTooDeep).run cursor).cursor.rest <:+
        cursor.rest.tail := progresses.suffix_tail more
    rw [run] at left
    exact .nil left fun statement after answered =>
      absurd (congrArg (Passage.mk []) answered) Statement.readTooDeep_ne_read
  | succ room ih =>
    refine isTrail_readWith progresses more (fun here => ?_) fun other => if_neg other
    have inner := (Statement.readNested grammar recovery room).2
    have attempts (place : Cursor) (ahead : place.rest ≠ []) :
        IsTrail grammar recovery place.rest [] Statement.all
          (((nested grammar recovery room).attempt recovery true).reader.run place)
          (((nested grammar recovery room).attempt recovery true).trail place) :=
      isTrail_attempt inner ahead ⟨room, rfl⟩ (ih ahead inner) true
    have blocks : (block recovery (nested grammar recovery room) inner).Tracks grammar recovery []
        Statement.all := .after fun _ => tracks_body attempts
    have chain := tracks_behindIf blocks cursor.look.take
    have starts : cursor.look.word = "if" := by
      simpa only [Cursor.word, Cursor.rest_look] using here
    rw [← run_readChain _ starts, Cursor.rest_take, Cursor.rest_look] at chain
    have listed : (nested grammar recovery (room + 1)).trail cursor =
        (behindIf (block recovery (nested grammar recovery room) inner)).trail cursor.look.take :=
      if_pos here
    rw [listed]
    exact chain

end Followed

end Trails

namespace Course

/-- What the attempts of a course over some tokens are. -/
structure Progresses (grammar : Grammar α) (recovery : Recovery) (tokens : List Token)
    (course : Course α) : Prop where
  /-- Each attempt is a run of the reader of statements. -/
  made : ∀ attempt ∈ course.trail, attempt.IsMade grammar recovery
  /-- Each attempt starts among the tokens. -/
  starts : ∀ attempt ∈ course.trail, attempt.start.rest <:+ tokens
  /-- Each attempt takes a token. -/
  takes : ∀ attempt ∈ course.trail, attempt.outcome.cursor.rest <:+ attempt.start.rest ∧
    attempt.outcome.cursor.rest.length < attempt.start.rest.length
  /-- Each attempt starts at a token behind those where earlier ones start. -/
  advances : course.trail.Pairwise fun first later =>
    later.start.rest.length < first.start.rest.length
  /-- Each statement of the tree was read by an attempt of its own. -/
  statements : (Statement.all course.reading.statements).Sublist (Attempt.statements course.trail)
  /-- Where a fault ends reading, it is the one that attempts have ended with. -/
  stops : recovery = .abort → course.reading.faults = (Attempt.faults course.trail).take 1
  /-- Where reading goes on, each attempt that failed leaves its fault. -/
  reports : recovery = .resume → course.reading.faults.Perm (Attempt.faults course.trail)
  /-- Where reading goes on, it goes on to the end. -/
  ends : recovery = .resume → course.left.rest = []

section Courses

variable {grammar : Grammar α} {recovery : Recovery} {tokens : List Token} {course : Course α}

/-- There are at most as many attempts as tokens. -/
theorem Progresses.length_le (progresses : course.Progresses grammar recovery tokens) :
    course.trail.length ≤ tokens.length := by
  have among : ∀ attempt ∈ course.trail, attempt.start.rest.length ≤ tokens.length :=
    fun attempt member => (progresses.starts attempt member).length_le
  have ahead : ∀ attempt ∈ course.trail, 0 < attempt.start.rest.length :=
    fun attempt member => Nat.zero_lt_of_lt (progresses.takes attempt member).2
  have advances := progresses.advances
  generalize course.trail = trail, tokens.length = count at among ahead advances
  -- Behind the first attempt there is one token less for the others.
  induction trail generalizing count with
  | nil => exact Nat.zero_le count
  | cons first trail ih =>
    obtain ⟨behind, advances⟩ := List.pairwise_cons.1 advances
    obtain ⟨here, among⟩ := List.forall_mem_cons.1 among
    obtain ⟨more, ahead⟩ := List.forall_mem_cons.1 ahead
    have fewer := ih (count - 1)
      (fun attempt member => by have := behind attempt member; omega) ahead advances
    rw [List.length_cons]
    omega

/-- There are at most as many statements and faults as attempts. -/
theorem Progresses.length_statements_add_faults_le
    (progresses : course.Progresses grammar recovery tokens) :
    (Statement.all course.reading.statements).length + course.reading.faults.length ≤
      course.trail.length := by
  have statements := progresses.statements.length_le
  have faults : course.reading.faults.length ≤ (Attempt.faults course.trail).length := by
    cases recovery with
    | abort =>
      rw [progresses.stops rfl, List.length_take]
      exact Nat.min_le_right _ _
    | resume => exact Nat.le_of_eq (progresses.reports rfl).length_eq
  have all := Attempt.length_statements_add_faults course.trail
  omega

/-- A course whose first attempts came over their faults goes on behind them. -/
theorem Progresses.after {cursor next : Cursor} {faults : List Located}
    {front : List (Statement α)} {trail : List (Attempt α)}
    (rest : course.Progresses grammar recovery next.rest)
    (first : IsTrail grammar recovery cursor.rest [] Statement.all ⟨faults, .read front next⟩
      trail) :
    Progresses grammar recovery cursor.rest
      ⟨course.reading.after faults front, trail ++ course.trail, course.left⟩ where
  made := List.forall_mem_append.2 ⟨first.made, rest.made⟩
  starts := List.forall_mem_append.2 ⟨first.starts, fun attempt member =>
    (rest.starts attempt member).trans first.left⟩
  takes := List.forall_mem_append.2 ⟨first.takes, rest.takes⟩
  advances := List.pairwise_append.2 ⟨first.advances, rest.advances,
    fun early before late behind => Nat.lt_of_le_of_lt (rest.starts late behind).length_le
      (first.ends early before)⟩
  statements := by
    have owned := first.yields front next rfl
    simp only [Reading.after, Statement.all_append, Attempt.statements_append]
    exact owned.append rest.statements
  stops ended := by
    subst ended
    obtain ⟨rfl, clean⟩ := first.meets.clean
    simp only [Reading.after, Attempt.faults_append, clean, List.nil_append]
    exact rest.stops rfl
  reports goes := by
    subst goes
    have met : faults.Perm (Attempt.faults trail) := first.meets
    simp only [Reading.after, Attempt.faults_append]
    exact met.append (rest.reports rfl)
  ends := rest.ends

/-- A course that ends at its first attempts has the fault that these have ended with. -/
theorem progresses_of_failed {cursor next : Cursor} {faults : List Located} {error : Located}
    {trail : List (Attempt α)}
    (first : IsTrail grammar .abort cursor.rest [] Statement.all ⟨faults, .failed error next⟩ trail)
    (ended : error ∈ Attempt.faults trail) :
    Progresses grammar .abort cursor.rest ⟨⟨[], faults ++ [error]⟩, trail, next⟩ where
  made := first.made
  starts := first.starts
  takes := first.takes
  advances := first.advances
  statements := List.nil_sublist _
  stops _ := by
    obtain ⟨clean, only⟩ := first.meets
    cases met : Attempt.faults trail with
    | nil =>
      rw [met] at ended
      cases ended
    | cons other others =>
      obtain ⟨place, same⟩ := only other (by rw [met]; exact List.mem_cons_self)
      cases same
      simp only at clean
      rw [clean]
      rfl
  reports goes := by cases goes
  ends goes := by cases goes

/-- From every place on, the course of reading progresses. -/
theorem progresses_ofCursor (grammar : Grammar α) (recovery : Recovery) (cursor : Cursor) :
    (ofCursor grammar recovery cursor).Progresses grammar recovery cursor.rest := by
  induction measured : cursor.rest.length using Nat.strongRecOn generalizing cursor with
  | ind length ih =>
    by_cases ended : cursor.rest = []
    · rw [ofCursor_end ended]
      exact ⟨by simp, by simp, by simp, List.Pairwise.nil, List.Sublist.slnil, fun _ => rfl,
        fun _ => List.Perm.nil, fun _ => ended⟩
    · have inside := Followed.isTrail_nested grammar recovery Guard.mostNesting ended
      have first : IsTrail grammar recovery cursor.rest [] Statement.all
          ((Statement.attempt recovery false (Statement.read grammar recovery)).run cursor)
          (((Followed.statement grammar recovery).attempt recovery false).trail cursor) :=
        Followed.isTrail_attempt (Statement.progresses_read grammar recovery) ended
          ⟨Guard.mostNesting, rfl⟩ inside false
      cases ran : (Statement.read grammar recovery).run cursor with
      | mk faults outcome =>
        have taken := (Statement.progresses_read grammar recovery).length_lt ended ran
        cases outcome with
        | read statement next =>
          simp only [Statement.attempt, ran] at first
          rw [ofCursor_read ended ran]
          exact (ih _ (measured ▸ taken) next rfl).after first
        | failed error next =>
          rw [ofCursor_failed ended ran]
          cases recovery with
          | abort =>
            have failed : ⟨cursor, ((Statement.read grammar .abort).run cursor).outcome⟩ ∈
                ((Followed.statement grammar .abort).attempt .abort false).trail cursor :=
              List.mem_cons_self
            rw [ran] at failed
            simp only [Statement.attempt, ran, ↓reduceIte] at first ⊢
            exact progresses_of_failed first (List.mem_filterMap.2 ⟨_, failed, rfl⟩)
          | resume =>
            have shorter : (next.recover false).rest.length < length :=
              measured ▸ Nat.lt_of_le_of_lt (next.recover_suffix false).length_le taken
            simp only [Statement.attempt, ran, reduceCtorEq, ↓reduceIte] at first ⊢
            exact (ih _ shorter (next.recover false) rfl).after first

end Courses

end Course

/-- In every grammar, with either recovery and for every token list, reading makes at most as many
attempts as there are tokens, since each takes a token and starts behind the starts of earlier ones.
Each statement of the tree and each fault comes from an attempt of its own, and reading that goes on
behind faults goes on to the end. -/
theorem progress_of_readings (grammar : Grammar α) (recovery : Recovery) (tokens : List Token) :
    (Course.ofTokens grammar recovery tokens).reading =
        Reading.ofTokens grammar recovery tokens ∧
      (Course.ofTokens grammar recovery tokens).Progresses grammar recovery tokens ∧
      (Statement.all (Reading.ofTokens grammar recovery tokens).statements).length +
          (Reading.ofTokens grammar recovery tokens).faults.length ≤
        (Course.ofTokens grammar recovery tokens).trail.length ∧
      (Course.ofTokens grammar recovery tokens).trail.length ≤ tokens.length := by
  have same := Course.reading_ofCursor grammar recovery (.ofTokens tokens)
  have progresses := Course.progresses_ofCursor grammar recovery (.ofTokens tokens)
  have counted := progresses.length_statements_add_faults_le
  rw [same] at counted
  exact ⟨same, progresses, counted, progresses.length_le⟩

end FormPatch
