import Mathlib.Data.List.Chain
import FormPatch.Diagnostic
import FormPatch.Proofs.Guard.Leading
import FormPatch.Proofs.Statement.Progress

/-!
# Where faults are reported

The tokens of a text are numbered from the first one on. While a text is read, the token looked at
last is the one that was taken last or the next one, and its number never falls. A fault is reported
at the token looked at last, so each fault is placed at a token of the attempt that failed, and
faults are placed one behind the other.

Main statement: in a grammar whose expressions have a composed reader, with either recovery and for
every token list, there are numbers that do not fall, one for each fault, and each fault ends an
attempt and is placed at the token with its number; each attempt that failed has its fault placed at
one of these tokens.
-/

namespace FormPatch

open Syntax Syntax.Tolerant

variable {α β γ : Type}

namespace Syntax.Cursor

/-- Whether the token looked at last is the one with a number among some tokens. -/
inductive Shows (tokens : List Token) : Nat → Cursor → Prop
  /-- It was taken last. -/
  | taken {front : List Token} {token : Token} {rest : List Token}
    (parts : tokens = front ++ token :: rest) : Shows tokens front.length ⟨rest, token.position⟩
  /-- It is the next one. -/
  | next {front : List Token} {token : Token} {rest : List Token}
    (parts : tokens = front ++ token :: rest) :
    Shows tokens front.length ⟨token :: rest, token.position⟩

/-- Whether the token looked at last is one with at least some number. -/
def ShowsFrom (tokens : List Token) (least : Nat) (cursor : Cursor) : Prop :=
  ∃ number, least ≤ number ∧ cursor.Shows tokens number

variable {tokens : List Token} {number least : Nat} {cursor : Cursor}

/-- The token looked at has at least its own number. -/
theorem Shows.showsFrom (shows : cursor.Shows tokens number) : cursor.ShowsFrom tokens number :=
  ⟨number, Nat.le_refl number, shows⟩

/-- There is such a token. -/
theorem Shows.token (shows : cursor.Shows tokens number) :
    ∃ token, tokens[number]? = some token ∧ token.position = cursor.shown := by
  cases shows with
  | @taken front token rest parts => exact ⟨token, by simp [parts], rfl⟩
  | @next front token rest parts => exact ⟨token, by simp [parts], rfl⟩

/-- All tokens in front of it have been taken. -/
theorem Shows.length_le (shows : cursor.Shows tokens number) :
    tokens.length ≤ number + 1 + cursor.rest.length := by
  cases shows with
  | @taken front token rest parts =>
    subst parts
    simp only [List.length_append, List.length_cons]
    omega
  | @next front token rest parts =>
    subst parts
    simp only [List.length_append, List.length_cons]
    omega

/-- The next token has no smaller number. -/
theorem Shows.ahead {token : Token} {rest : List Token} {shown : Position}
    (shows : Cursor.Shows tokens number ⟨token :: rest, shown⟩) :
    ∃ front, tokens = front ++ token :: rest ∧ number ≤ front.length := by
  cases shows with
  | @taken front last _ parts => exact ⟨front ++ [last], by simpa using parts, by simp⟩
  | @next front _ _ parts => exact ⟨front, parts, Nat.le_refl _⟩

/-- Looking and taking do not make the number fall. -/
instance : Steady (ShowsFrom tokens least) where
  look {cursor} := by
    rintro ⟨number, least, shows⟩
    obtain ⟨rest, shown⟩ := cursor
    cases rest with
    | nil => exact ⟨number, least, shows⟩
    | cons token rest =>
      obtain ⟨front, parts, later⟩ := shows.ahead
      exact ⟨front.length, Nat.le_trans least later, .next parts⟩
  take {cursor} := by
    rintro ⟨number, least, shows⟩
    obtain ⟨rest, shown⟩ := cursor
    cases rest with
    | nil => exact ⟨number, least, shows⟩
    | cons token rest =>
      obtain ⟨front, parts, later⟩ := shows.ahead
      exact ⟨front.length, Nat.le_trans least later, .taken parts⟩

/-- Skipping does not leave steady places. -/
theorem Steady.skipFrom {places : Cursor → Prop} [Steady places] (inBlock : Bool) (depth : Nat)
    (rest : List Token) (shown : Position) (held : places ⟨rest, shown⟩) :
    places (Cursor.skipFrom inBlock depth rest shown) := by
  fun_induction Cursor.skipFrom inBlock depth rest shown with
  | case1 => exact held
  | case2 => exact Steady.look held
  | case4 => exact Steady.take held
  | case6 => exact Steady.look (Steady.take held)
  | case3 | case5 | case7 | case8 | case9 =>
    rename_i ih
    exact ih (Steady.take held)

/-- Recovery does not leave steady places. -/
theorem Steady.recover {places : Cursor → Prop} [Steady places] (inBlock : Bool)
    (held : places cursor) : places (cursor.recover inBlock) :=
  Steady.skipFrom inBlock 0 cursor.rest cursor.shown held

end Syntax.Cursor

/-- Whether numbers do not fall, from a least one up to a last one. -/
def Between (least : Nat) (numbers : List Nat) (last : Nat) : Prop :=
  (least :: (numbers ++ [last])).IsChain (· ≤ ·)

namespace Between

variable {least middle last : Nat} {numbers behind : List Nat}

/-- Without numbers, the last one only has to be no smaller. -/
theorem nil (le : least ≤ last) : Between least [] last :=
  List.isChain_cons_cons.2 ⟨le, List.isChain_singleton _⟩

/-- Numbers that do not fall may be put behind each other. -/
theorem append (first : Between least numbers middle) (second : Between middle behind last) :
    Between least (numbers ++ behind) last := by
  have front : ((least :: numbers) ++ [middle]).IsChain (· ≤ ·) := first
  have back : ([middle] ++ (behind ++ [last])).IsChain (· ≤ ·) := second
  have joined := List.isChain_iff_pairwise.1 (front.append_overlap back (by simp))
  exact List.isChain_iff_pairwise.2 (joined.sublist (by simp))

/-- The last number may come behind the numbers itself. -/
theorem concat (first : Between least numbers middle) (le : middle ≤ last) :
    Between least (numbers ++ [middle]) last :=
  first.append (List.isChain_cons_cons.2 ⟨Nat.le_refl middle, nil le⟩)

/-- None of the numbers is above a later one. -/
theorem pairwise (between : Between least numbers last) : numbers.Pairwise (· ≤ ·) := by
  have all := List.isChain_iff_pairwise.1 between
  exact all.sublist ((List.sublist_append_left numbers [last]).cons least)

end Between

/-- Whether an attempt failed, and its fault is placed at the token with a number, which is the one
looked at last. -/
def Attempt.FailsAt (tokens : List Token) (number : Nat) (error : Located) (attempt : Attempt α) :
    Prop :=
  ∃ after, attempt.outcome = .failed error after ∧ after.Shows tokens number ∧
    error.position = after.shown

namespace Attempt

variable {tokens : List Token} {trail behind : List (Attempt α)} {numbers later : List Nat}

/-- Whether some attempt failed in this way. -/
def FailsIn (tokens : List Token) (trail : List (Attempt α)) (number : Nat) (error : Located) :
    Prop :=
  ∃ attempt ∈ trail, attempt.FailsAt tokens number error

/-- Whether each attempt that failed did so at a token with one of some numbers. -/
def AllAt (tokens : List Token) (trail : List (Attempt α)) (numbers : List Nat) : Prop :=
  ∀ attempt ∈ trail, ∀ error, attempt.fault? = some error →
    ∃ number ∈ numbers, attempt.FailsAt tokens number error

/-- Among more attempts, the same ones failed. -/
theorem forall₂_mono {faults : List Located} (among : trail ⊆ behind)
    (fails : List.Forall₂ (FailsIn tokens trail) numbers faults) :
    List.Forall₂ (FailsIn tokens behind) numbers faults :=
  fails.imp fun _ _ ⟨attempt, member, here⟩ => ⟨attempt, among member, here⟩

/-- Faults of attempts in front and behind are those of all attempts. -/
theorem forall₂_append {faults faults' : List Located}
    (front : List.Forall₂ (FailsIn tokens trail) numbers faults)
    (back : List.Forall₂ (FailsIn tokens behind) later faults') :
    List.Forall₂ (FailsIn tokens (trail ++ behind)) (numbers ++ later) (faults ++ faults') :=
  List.rel_append (forall₂_mono (List.subset_append_left trail behind) front)
    (forall₂_mono (List.subset_append_right trail behind) back)

/-- Failures in front and behind stand at the numbers of both. -/
theorem AllAt.append (front : AllAt tokens trail numbers) (back : AllAt tokens behind later) :
    AllAt tokens (trail ++ behind) (numbers ++ later) := by
  refine List.forall_mem_append.2 ⟨fun attempt member error ended => ?_,
    fun attempt member error ended => ?_⟩
  · obtain ⟨number, among, fails⟩ := front attempt member error ended
    exact ⟨number, List.mem_append_left later among, fails⟩
  · obtain ⟨number, among, fails⟩ := back attempt member error ended
    exact ⟨number, List.mem_append_right numbers among, fails⟩

end Attempt

/-- The number of the token at which a run reports the fault at its end, if it failed. -/
def Syntax.Passage.ending (passage : Passage β) (last : Nat) : List Nat :=
  match passage.outcome with
  | .read _ _ => []
  | .failed _ _ => [last]

/-- Whether a run that makes some attempts comes over faults at tokens with some numbers, and ends
when the last number is that of the token looked at last. -/
structure IsReported (tokens : List Token) (least : Nat) (trail : List (Attempt α))
    (passage : Passage β) (numbers : List Nat) (last : Nat) : Prop where
  /-- The token looked at last. -/
  shows : passage.cursor.Shows tokens last
  /-- A fault at the end is placed there. -/
  placed : ∀ error after, passage.outcome = .failed error after → error.position = after.shown
  /-- The numbers do not fall. -/
  between : Between least numbers last
  /-- Each fault that was come over is that of an attempt. -/
  faults : List.Forall₂ (Attempt.FailsIn tokens trail) numbers passage.faults
  /-- Each attempt that failed is reported. -/
  failed : Attempt.AllAt tokens trail (numbers ++ passage.ending last)

section Trails

variable {recovery : Recovery} {tokens : List Token} {least last : Nat} {cursor : Cursor}
  {trail behind : List (Attempt α)} {numbers : List Nat}

namespace IsReported

variable {reader : Tolerant β} {next : β → Tolerant γ} {faults : List Located}

/-- A run without attempts. -/
theorem nil {outcome : Outcome β} (le : least ≤ last) (shows : outcome.cursor.Shows tokens last)
    (placed : ∀ error after, outcome = .failed error after → error.position = after.shown) :
    IsReported tokens least ([] : List (Attempt α)) ⟨[], outcome⟩ [] last :=
  ⟨shows, placed, .nil le, .nil, fun _ none => by cases none⟩

/-- A run that goes on behind a value reports what both parts do. -/
theorem bind_read {value : β} {after : Cursor} {later : List Nat} {stop : Nat}
    (head : IsReported tokens least trail (reader.run cursor) numbers last)
    (ran : reader.run cursor = ⟨faults, .read value after⟩)
    (tail : IsReported tokens last behind ((next value).run after) later stop) :
    IsReported tokens least (trail ++ behind) ((reader >>= next).run cursor) (numbers ++ later)
      stop := by
  have joined : (reader >>= next).run cursor = ((next value).run after).behind faults := by
    rw [run_bind, ran]
  rw [joined]
  rw [ran] at head
  constructor
  case shows => exact tail.shows
  case placed => exact tail.placed
  case between => exact head.between.append tail.between
  case faults => exact Attempt.forall₂_append head.faults tail.faults
  case failed =>
    -- The first part ended with a value, so it has no fault at its end.
    have early : Attempt.AllAt tokens trail (numbers ++ []) := head.failed
    rw [List.append_nil] at early
    rw [List.append_assoc]
    exact early.append tail.failed

/-- A run that ends at a fault reports those in front of it. -/
theorem bind_failed {error : Located} {after : Cursor}
    (head : IsReported tokens least trail (reader.run cursor) numbers last)
    (ran : reader.run cursor = ⟨faults, .failed error after⟩) :
    IsReported tokens least (trail ++ []) ((reader >>= next).run cursor) numbers last := by
  have stopped : (reader >>= next).run cursor = ⟨faults, .failed error after⟩ := by
    rw [run_bind, ran]
  rw [stopped, List.append_nil]
  rw [ran] at head
  refine ⟨head.shows, fun other place same => ?_, head.between, head.faults, head.failed⟩
  cases same
  exact head.placed error after rfl

/-- From a smaller number on, the numbers do not fall either. -/
theorem widen {passage : Passage β} {earlier : Nat}
    (kept : IsReported tokens least trail passage numbers last) (le : earlier ≤ least) :
    IsReported tokens earlier trail passage numbers last where
  shows := kept.shows
  placed := kept.placed
  between := (Between.nil le).append kept.between
  faults := kept.faults
  failed := kept.failed

/-- Another value can be answered. -/
theorem map {change : β → γ}
    (head : IsReported tokens least trail (reader.run cursor) numbers last) :
    IsReported tokens least trail ((reader >>= fun value => pure (change value)).run cursor)
      numbers last := by
  rw [← List.append_nil trail]
  cases ran : reader.run cursor with
  | mk faults outcome =>
    cases outcome with
    | read value after =>
      rw [← List.append_nil numbers]
      have shows := head.shows
      rw [ran] at shows
      exact head.bind_read ran (.nil (Nat.le_refl last) shows fun _ _ failed => by cases failed)
    | failed error after => exact head.bind_failed ran

end IsReported

namespace Followed

/-- Whether runs report their faults at tokens with numbers that do not fall. -/
def Reports (tokens : List Token) (followed : Followed α β) : Prop :=
  ∀ cursor least, cursor.Shows tokens least → ∃ numbers last,
    IsReported tokens least (followed.trail cursor) (followed.reader.run cursor) numbers last

/-- A reader that attempts no statement and does not let the number fall. -/
theorem reports_ofReader {reader : Reader β}
    (leads : ∀ least, reader.Leads (Cursor.ShowsFrom tokens least)
      (fun _ => Cursor.ShowsFrom tokens least) fun error after =>
        Cursor.ShowsFrom tokens least after ∧ error.position = after.shown) :
    (ofReader reader : Followed α β).Reports tokens := by
  intro cursor least shows
  have ended := leads least cursor ⟨least, Nat.le_refl least, shows⟩
  show ∃ numbers last, IsReported tokens least [] ⟨[], reader.run cursor⟩ numbers last
  cases ran : reader.run cursor with
  | read value after =>
    rw [ran] at ended
    obtain ⟨last, le, here⟩ := ended
    exact ⟨[], last, .nil le here fun _ _ failed => by cases failed⟩
  | failed error after =>
    rw [ran] at ended
    obtain ⟨⟨last, le, here⟩, placed⟩ := ended
    refine ⟨[], last, .nil le here fun other place failed => ?_⟩
    cases failed
    exact placed

/-- The faults of a reader that is composed of steps are reported in order. -/
theorem reports_composed {reader : Reader β} (composed : reader.Composed) :
    (ofReader reader : Followed α β).Reports tokens :=
  reports_ofReader fun _ => composed.leads

/-- Answering at once reports nothing. -/
theorem reports_pure (value : β) : (pure value : Followed α β).Reports tokens :=
  reports_composed (.answers value)

/-- Reports in order stay so when another reader goes on. -/
theorem Reports.bind {first : Followed α β} {next : β → Followed α γ}
    (head : first.Reports tokens) (tail : ∀ value, (next value).Reports tokens) :
    (first >>= next).Reports tokens := by
  intro cursor least shows
  obtain ⟨numbers, last, front⟩ := head cursor least shows
  show ∃ numbers last, IsReported tokens least (first.trail cursor ++ _)
    ((first.reader >>= fun value => (next value).reader).run cursor) numbers last
  split
  · next faults value after ran =>
    have place : after.Shows tokens last := by
      have here := front.shows
      rwa [ran] at here
    obtain ⟨later, stop, back⟩ := tail value after last place
    exact ⟨numbers ++ later, stop, front.bind_read ran back⟩
  · next faults error after ran => exact ⟨numbers, last, front.bind_failed ran⟩

/-- Branches report their faults when the items do. -/
theorem reports_branches {mark : String} {named : mark ≠ ""} {item : Followed α (β ⊕ γ)}
    (items : item.Reports tokens) : (branches mark named item).Reports tokens := by
  intro cursor
  show ∀ least, cursor.Shows tokens least → ∃ numbers last, IsReported tokens least
    (trailBranches mark named item cursor) ((Tolerant.branches mark named item.reader).run cursor)
      numbers last
  induction measured : cursor.rest.length using Nat.strongRecOn generalizing cursor with
  | ind length ih =>
    intro least shows
    by_cases here : cursor.word = mark
    · have more := Cursor.rest_ne_nil_of_word named here
      obtain ⟨first, le, taken⟩ := Cursor.Steady.take shows.showsFrom
      obtain ⟨numbers, last, front⟩ := items cursor.take first taken
      replace front := front.widen le
      have place := front.shows
      rw [run_branches_of_word here, trailBranches, dif_pos here]
      split
      · next faults value after ran =>
        have shorter : after.rest.length < length := measured ▸ length_lt_of_take more ran
        rw [ran] at place
        obtain ⟨later, stop, others⟩ := ih _ shorter after rfl last place
        exact ⟨numbers ++ later, stop, front.bind_read ran others.map⟩
      · next faults value after ran =>
        rw [ran] at place
        exact ⟨numbers ++ [], last, front.bind_read ran (.nil (Nat.le_refl last) place
          fun _ _ failed => by cases failed)⟩
      · next faults error after ran => exact ⟨numbers, last, front.bind_failed ran⟩
    · obtain ⟨last, le, looked⟩ := Cursor.Steady.look shows.showsFrom
      rw [run_branches_of_ne here, trailBranches, dif_neg here]
      exact ⟨[], last, .nil le looked fun _ _ failed => by cases failed⟩

section Blocks

variable {statement : Followed α (Statement α)} {progresses : statement.reader.Progresses}
  {block : Followed α (List (Statement α))}

/-- An attempt reports its own fault behind those that it came over. -/
theorem isReported_attempt (inBlock : Bool)
    (inside : IsReported tokens least (statement.trail cursor) (statement.reader.run cursor)
      numbers last) :
    ∃ numbers last, IsReported tokens least
      ((statement.attempt recovery inBlock).trail cursor)
      ((statement.attempt recovery inBlock).reader.run cursor) numbers last := by
  simp only [attempt, Statement.attempt]
  cases ran : statement.reader.run cursor with
  | mk faults outcome =>
    rw [ran] at inside
    have all := List.subset_cons_self (⟨cursor, outcome⟩ : Attempt α) (statement.trail cursor)
    cases outcome with
    | read first after =>
      refine ⟨numbers, last, inside.shows, fun _ _ failed => (by cases failed), inside.between,
        Attempt.forall₂_mono all inside.faults, ?_⟩
      exact List.forall_mem_cons.2 ⟨fun _ failed => (by cases failed), inside.failed⟩
    | failed error after =>
      have fails : Attempt.FailsAt tokens last error (⟨cursor, .failed error after⟩ : Attempt α) :=
        ⟨after, rfl, inside.shows, inside.placed error after rfl⟩
      cases recovery with
      | abort =>
        refine ⟨numbers, last, inside.shows, ?_, inside.between,
          Attempt.forall₂_mono all inside.faults, ?_⟩
        · intro other place failed
          cases failed
          exact inside.placed error after rfl
        · refine List.forall_mem_cons.2 ⟨fun other failed => ?_, inside.failed⟩
          cases failed
          exact ⟨last, by simp [Passage.ending], fails⟩
      | resume =>
        -- The fault is come over, and recovery goes on from where it was found.
        obtain ⟨stop, le, shows⟩ := Cursor.Steady.recover inBlock inside.shows.showsFrom
        refine ⟨numbers ++ [last], stop, shows, fun _ _ failed => (by cases failed),
          inside.between.concat le, ?_, ?_⟩
        · refine List.rel_append (Attempt.forall₂_mono all inside.faults) ?_
          exact .cons ⟨_, List.mem_cons_self, fails⟩ .nil
        · refine List.forall_mem_cons.2 ⟨fun other failed => ?_,
            fun attempt member other failed => ?_⟩
          · cases failed
            exact ⟨last, by simp, fails⟩
          · obtain ⟨number, among, fails⟩ := inside.failed attempt member other failed
            exact ⟨number, by simpa [Passage.ending] using among, fails⟩

/-- The reports of a block are in order when those of its statements are. -/
theorem reports_body (attempts : (statement.attempt recovery true).Reports tokens) :
    (body recovery statement progresses).Reports tokens := by
  intro cursor
  show ∀ least, cursor.Shows tokens least → ∃ numbers last, IsReported tokens least
    (trailBody recovery statement progresses cursor)
    ((Statement.body recovery statement.reader progresses).run cursor) numbers last
  induction measured : cursor.rest.length using Nat.strongRecOn generalizing cursor with
  | ind length ih =>
    intro least shows
    by_cases ended : cursor.rest = []
    · rw [Statement.run_body_of_end ended, trailBody, dif_pos ended]
      refine ⟨[], least, .nil (Nat.le_refl least) shows fun error after failed => ?_⟩
      cases failed
      rfl
    · by_cases closes : cursor.word = "\x7d"
      · obtain ⟨last, le, taken⟩ := Cursor.Steady.take shows.showsFrom
        rw [Statement.run_body_of_brace closes, trailBody, dif_neg ended, if_pos closes]
        exact ⟨[], last, .nil le taken fun _ _ failed => by cases failed⟩
      · obtain ⟨first, le, looked⟩ := Cursor.Steady.look shows.showsFrom
        obtain ⟨numbers, last, front⟩ :=
          attempts cursor.look first looked
        replace front := front.widen le
        have place := front.shows
        rw [Statement.run_body ended closes, trailBody, dif_neg ended, if_neg closes]
        split
        · next faults found after ran =>
          have shorter : after.rest.length < length :=
            measured ▸ Statement.length_attempt_lt progresses ended ran
          have here : after.Shows tokens last := by
            have same : ((statement.attempt recovery true).reader.run cursor.look).cursor = after :=
              congrArg Passage.cursor ran
            rwa [same] at place
          obtain ⟨later, stop, others⟩ := ih _ shorter after rfl last here
          exact ⟨numbers ++ later, stop, front.bind_read ran others.map⟩
        · next faults error after ran => exact ⟨numbers, last, front.bind_failed ran⟩

/-- A missing word is reported in order. -/
theorem reports_expect (mark : String) :
    (ofReader (Reader.expect mark) : Followed α Unit).Reports tokens :=
  reports_composed (Reader.composed_expect mark)

/-- The fault of a guard is reported in order. -/
theorem reports_guard : (ofReader Guard.read : Followed α Guard).Reports tokens := by
  refine reports_ofReader fun least => Guard.leads_read ?_
  exact ⟨fun held _ => ⟨held, rfl⟩, fun held _ _ => ⟨Cursor.Steady.take held, rfl⟩,
    fun held _ _ => ⟨Cursor.Steady.look held, rfl⟩⟩

/-- The reports of a branch are in order when those of its block are. -/
theorem reports_branch (blocks : block.Reports tokens) : (branch block).Reports tokens :=
  (reports_expect "(").bind fun _ => reports_guard.bind fun _ => (reports_expect ")").bind fun _ =>
    blocks.bind fun _ => reports_pure _

/-- The reports behind an else are in order when those of the block there are. -/
theorem reports_behindElse (blocks : block.Reports tokens) : (behindElse block).Reports tokens := by
  refine (reports_composed (Reader.composed_accept "if")).bind fun found => ?_
  cases found with
  | true => exact (reports_branch blocks).bind fun _ => reports_pure _
  | false => exact blocks.bind fun _ => reports_pure _

/-- The reports of a chain are in order when those of its blocks are. -/
theorem reports_behindIf (blocks : block.Reports tokens) : (behindIf block).Reports tokens :=
  (reports_branch blocks).bind fun _ => (reports_branches (reports_behindElse blocks)).bind fun _ =>
    reports_pure _

end Blocks

/-- A statement reports what a chain does, or what an expression does. -/
theorem isReported_readWith {grammar : Grammar α} (composed : grammar.read.Composed)
    {chain : Tolerant (Statement α)} {trail : List (Attempt α)}
    (shows : cursor.look.Shows tokens least)
    (chained : cursor.word = "if" → ∃ numbers last,
      IsReported tokens least trail (chain.run cursor.look) numbers last)
    (none : cursor.word ≠ "if" → trail = []) :
    ∃ numbers last, IsReported tokens least trail ((Statement.readWith grammar chain).run cursor)
      numbers last := by
  by_cases here : cursor.word = "if"
  · have run : (Statement.readWith grammar chain).run cursor = chain.run cursor.look := if_pos here
    rw [run]
    exact chained here
  · have run : (Statement.readWith grammar chain).run cursor =
        ⟨[], (grammar.read.run cursor.look).map .expression⟩ := if_neg here
    rw [run, none here]
    have same : (grammar.read.run cursor.look).map Statement.expression =
        (grammar.read >>= fun payload => pure (Statement.expression payload)).run cursor.look := by
      rw [Reader.run_bind]
      cases grammar.read.run cursor.look <;> rfl
    rw [same]
    exact reports_composed (composed.bind fun _ => .answers _) cursor.look least shows

/-- However much room there is, a statement reports its faults. -/
theorem isReported_nested {grammar : Grammar α} (composed : grammar.read.Composed)
    (recovery : Recovery) (room : Nat) (shows : cursor.look.Shows tokens least) :
    ∃ numbers last, IsReported tokens least ((nested grammar recovery room).trail cursor)
      ((nested grammar recovery room).reader.run cursor) numbers last := by
  induction room generalizing cursor least with
  | zero =>
    refine isReported_readWith composed shows (fun _ => ?_) fun _ => rfl
    have chain : (Reader.expect "if" >>= fun _ =>
        Reader.fail .nesting : Reader (Statement α)).Composed :=
      (Reader.composed_expect "if").bind fun _ => .fails _
    exact reports_composed chain cursor.look least shows
  | succ room ih =>
    refine isReported_readWith composed shows (fun here => ?_) fun other => if_neg other
    have attempts : ((nested grammar recovery room).attempt recovery true).Reports tokens := by
      intro place first held
      obtain ⟨later, le, looked⟩ := Cursor.Steady.look held.showsFrom
      obtain ⟨numbers, last, inside⟩ := ih looked
      exact isReported_attempt true (inside.widen le)
    have chain : (behindIf (block recovery (nested grammar recovery room)
        (Statement.readNested grammar recovery room).2)).Reports tokens :=
      reports_behindIf ((reports_expect "\x7b").bind fun _ => reports_body attempts)
    obtain ⟨first, le, taken⟩ := Cursor.Steady.take shows.showsFrom
    obtain ⟨numbers, last, kept⟩ := chain cursor.look.take first taken
    have starts : cursor.look.word = "if" := by
      simpa only [Cursor.word, Cursor.rest_look] using here
    rw [← run_readChain _ starts] at kept
    have listed : (nested grammar recovery (room + 1)).trail cursor =
        (behindIf (block recovery (nested grammar recovery room)
          (Statement.readNested grammar recovery room).2)).trail cursor.look.take := if_pos here
    rw [listed]
    exact ⟨numbers, last, kept.widen le⟩

end Followed

/-- Whether a course has faults at tokens with some numbers. -/
structure Course.Reports (tokens : List Token) (least : Nat) (course : Course α)
    (numbers : List Nat) (last : Nat) : Prop where
  /-- The numbers do not fall. -/
  between : Between least numbers last
  /-- Each fault is that of an attempt. -/
  faults : List.Forall₂ (Attempt.FailsIn tokens course.trail) numbers course.reading.faults
  /-- Each attempt that failed is reported. -/
  failed : Attempt.AllAt tokens course.trail numbers

/-- A course whose first attempts came over their faults goes on behind them. -/
theorem Course.Reports.after {course : Course α} {next : Cursor} {faults : List Located}
    {front : List (Statement α)} {later : List Nat} {middle stop : Nat}
    (rest : course.Reports tokens middle later stop) (le : last ≤ middle)
    (first : IsReported tokens least trail ⟨faults, .read front next⟩ numbers last) :
    Reports tokens least ⟨course.reading.after faults front, trail ++ course.trail, course.left⟩
      (numbers ++ later) stop where
  between := first.between.append ((Between.nil le).append rest.between)
  faults := Attempt.forall₂_append first.faults rest.faults
  failed := by
    have early : Attempt.AllAt tokens trail (numbers ++ []) := first.failed
    rw [List.append_nil] at early
    exact early.append rest.failed

/-- A course that ends at its first attempts has the fault that these have ended with. -/
theorem Course.reports_of_failed {next : Cursor} {faults : List Located} {error : Located}
    (first : IsReported tokens least trail
      (⟨faults, .failed error next⟩ : Passage (List (Statement α))) numbers last)
    (ended : ∃ attempt ∈ trail, attempt.outcome = .failed error next) :
    Reports tokens least ⟨⟨[], faults ++ [error]⟩, trail, next⟩ (numbers ++ [last]) last where
  between := first.between.concat (Nat.le_refl last)
  faults := by
    obtain ⟨attempt, member, failed⟩ := ended
    have placed := first.placed error next rfl
    exact List.rel_append first.faults
      (.cons ⟨attempt, member, next, failed, first.shows, placed⟩ .nil)
  failed := first.failed

/-- From every place on, the course of reading reports its faults. -/
theorem Course.reports_ofCursor {grammar : Grammar α} (composed : grammar.read.Composed)
    (recovery : Recovery) (shows : cursor.look.Shows tokens least) :
    ∃ numbers last, (ofCursor grammar recovery cursor).Reports tokens least numbers last := by
  induction measured : cursor.rest.length using Nat.strongRecOn generalizing cursor least with
  | ind length ih =>
    by_cases ended : cursor.rest = []
    · rw [ofCursor_end ended]
      exact ⟨[], least, .nil (Nat.le_refl least), .nil, fun _ none => by cases none⟩
    · obtain ⟨_, _, inside⟩ :=
        Followed.isReported_nested composed recovery Guard.mostNesting shows
      obtain ⟨numbers, last, first⟩ :
          ∃ numbers last, IsReported tokens least
            (((Followed.statement grammar recovery).attempt recovery false).trail cursor)
            ((Statement.attempt recovery false (Statement.read grammar recovery)).run cursor)
            numbers last := Followed.isReported_attempt false inside
      cases ran : (Statement.read grammar recovery).run cursor with
      | mk faults outcome =>
        have taken := (Statement.progresses_read grammar recovery).length_lt ended ran
        cases outcome with
        | read statement next =>
          simp only [Statement.attempt, ran] at first
          obtain ⟨middle, le, looked⟩ := Cursor.Steady.look first.shows.showsFrom
          obtain ⟨later, stop, rest⟩ := ih _ (measured ▸ taken) looked rfl
          rw [ofCursor_read ended ran]
          exact ⟨numbers ++ later, stop, rest.after le first⟩
        | failed error next =>
          have failed : ⟨cursor, .failed error next⟩ ∈
              ((Followed.statement grammar recovery).attempt recovery false).trail cursor := by
            have head : ⟨cursor, ((Statement.read grammar recovery).run cursor).outcome⟩ ∈
                ((Followed.statement grammar recovery).attempt recovery false).trail cursor :=
              List.mem_cons_self
            rwa [ran] at head
          rw [ofCursor_failed ended ran]
          cases recovery with
          | abort =>
            simp only [Statement.attempt, ran, ↓reduceIte] at first ⊢
            exact ⟨numbers ++ [last], last, reports_of_failed first ⟨_, failed, rfl⟩⟩
          | resume =>
            simp only [Statement.attempt, ran, reduceCtorEq, ↓reduceIte] at first ⊢
            have shorter : (next.recover false).rest.length < length :=
              measured ▸ Nat.lt_of_le_of_lt (next.recover_suffix false).length_le taken
            obtain ⟨middle, le, looked⟩ := Cursor.Steady.look first.shows.showsFrom
            obtain ⟨later, stop, rest⟩ := ih _ shorter looked rfl
            exact ⟨numbers ++ later, stop, rest.after le first⟩

end Trails

/-- Whether an attempt failed, and the diagnostic of its fault is placed at the token with a number:
one of its own tokens, and the one looked at last. -/
structure Attempt.IsPlacedAt (tokens : List Token) (number : Nat) (error : Located)
    (attempt : Attempt α) : Prop where
  /-- The attempt failed when the token was the one looked at last. -/
  fails : attempt.FailsAt tokens number error
  /-- The attempt started no later. -/
  own : ∃ front, tokens = front ++ attempt.start.rest ∧ front.length ≤ number
  /-- The diagnostic is placed there. -/
  token : ∃ token, tokens[number]? = some token ∧
    (Diagnostic.ofFault error).position = some token.position

/-- Whether the faults of a course are placed in order: at tokens whose numbers do not fall, each in
an attempt that failed, and those of all such attempts. -/
def Course.PlacesFaults (tokens : List Token) (course : Course α) : Prop :=
  ∃ numbers : List Nat, numbers.Pairwise (· ≤ ·) ∧
    List.Forall₂ (fun number error => ∃ attempt ∈ course.trail,
      attempt.IsPlacedAt tokens number error) numbers course.reading.faults ∧
    ∀ attempt ∈ course.trail, ∀ error, attempt.fault? = some error →
      ∃ number ∈ numbers, attempt.IsPlacedAt tokens number error

section Courses

variable {grammar : Grammar α} {recovery : Recovery} {tokens : List Token} {course : Course α}

/-- An attempt of a course takes its first token, so it fails at one of its own tokens. -/
theorem Course.Progresses.isPlacedAt (progresses : course.Progresses grammar recovery tokens)
    {attempt : Attempt α} (member : attempt ∈ course.trail) {number : Nat} {error : Located}
    (fails : attempt.FailsAt tokens number error) : attempt.IsPlacedAt tokens number error := by
  have ⟨after, ended, shows, placed⟩ := fails
  obtain ⟨front, parts⟩ := progresses.starts attempt member
  obtain ⟨token, found, here⟩ := shows.token
  refine ⟨fails, ⟨front, parts.symm, ?_⟩, token, found, ?_⟩
  · have taken : after.rest.length < attempt.start.rest.length := by
      have fewer := (progresses.takes attempt member).2
      rwa [ended] at fewer
    have behind := shows.length_le
    rw [← parts, List.length_append] at behind
    omega
  · rw [here, ← placed]
    rfl

/-- In a grammar whose expressions have a composed reader, faults are placed in order. -/
theorem Course.placesFaults_ofTokens (composed : grammar.read.Composed) (recovery : Recovery)
    (tokens : List Token) : (ofTokens grammar recovery tokens).PlacesFaults tokens := by
  have progresses := progresses_ofCursor grammar recovery (.ofTokens tokens)
  obtain ⟨numbers, last, reports⟩ : ∃ numbers last,
      (ofTokens grammar recovery tokens).Reports tokens 0 numbers last := by
    cases tokens with
    | nil =>
      rw [ofTokens, ofCursor_end rfl]
      exact ⟨[], 0, .nil (Nat.le_refl 0), .nil, fun _ none => by cases none⟩
    | cons token tokens =>
      have first : Cursor.Shows (token :: tokens) ([] : List Token).length
          ⟨token :: tokens, token.position⟩ := .next rfl
      exact reports_ofCursor composed recovery first
  refine ⟨numbers, reports.between.pairwise, reports.faults.imp fun number error fails => ?_,
    fun attempt member error ended => ?_⟩
  · obtain ⟨attempt, member, here⟩ := fails
    exact ⟨attempt, member, progresses.isPlacedAt member here⟩
  · obtain ⟨number, among, here⟩ := reports.failed attempt member error ended
    exact ⟨number, among, progresses.isPlacedAt member here⟩

end Courses

end FormPatch
