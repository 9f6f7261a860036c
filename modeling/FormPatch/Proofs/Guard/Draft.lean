import FormPatch.Proofs.Guard.Formula

/-!
# Drafts

A draft is a derivation of a list of tokens that has a reverse Polish order. Its grammar is the
precedence grammar without its innermost rules: where a formula has an atom behind negations, a
draft has a run, which holds calls, groups and negations in any number and order, and may hold
none. A run is kept as its longest shorter run and its last element.

Main statement: a list of tokens has a reverse Polish order exactly when it is that of a draft,
and then the order lists the steps of the draft.
-/

namespace FormPatch.Guard

/-- A derivation of a part of a list of tokens whose parentheses match. -/
inductive Draft : Tier → Type where
  /-- A run that holds nothing. -/
  | start : Draft .unary
  /-- A run and a question to the host. -/
  | call (front : Draft .unary) (asked : Call) : Draft .unary
  /-- A run and a draft in parentheses. -/
  | group (front : Draft .unary) (inside : Draft .disjunction) : Draft .unary
  /-- A run and a negation. -/
  | negation (front : Draft .unary) : Draft .unary
  /-- The first link of a conjunction. -/
  | first (run : Draft .unary) : Draft .conjunction
  /-- A conjunction and its last link. -/
  | both (left : Draft .conjunction) (right : Draft .unary) : Draft .conjunction
  /-- The first link of a disjunction. -/
  | only (link : Draft .conjunction) : Draft .disjunction
  /-- A disjunction and its last link. -/
  | either (left : Draft .disjunction) (right : Draft .conjunction) : Draft .disjunction
deriving Repr

namespace Draft

variable {tier : Tier}

/-- The tokens that a draft stands for. -/
def tokens {tier : Tier} : Draft tier → Guard
  | start => []
  | call front asked => front.tokens ++ [.call asked]
  | group front inside => front.tokens ++ .opening :: inside.tokens ++ [.closing]
  | negation front => front.tokens ++ [.operator .negate]
  | first run => run.tokens
  | both left right => left.tokens ++ .operator .both :: right.tokens
  | only link => link.tokens
  | either left right => left.tokens ++ .operator .either :: right.tokens

/-- The operators that still wait when the last token of a draft has been read, the latest
first. -/
def pending {tier : Tier} : Draft tier → List Operator
  | start => []
  | call front _ => front.pending
  | group front _ => front.pending
  | negation front => .negate :: front.pending
  | first run => run.pending
  | both _ right => right.pending ++ [.both]
  | only link => link.pending
  | either _ right => right.pending ++ [.either]

/-- The steps that are out when the last token of a draft has been read. -/
def released {tier : Tier} : Draft tier → List Step
  | start => []
  | call front asked => front.released ++ [.ask asked]
  | group front inside => front.released ++ inside.released ++ inside.pending.map .combine
  | negation front => front.released
  | first run => run.released
  | both left right => left.released ++ left.pending.map .combine ++ right.released
  | only link => link.released
  | either left right => left.released ++ left.pending.map .combine ++ right.released

/-- A draft in reverse Polish order. -/
def steps (draft : Draft tier) : List Step :=
  draft.released ++ draft.pending.map .combine

/-- What waits behind a draft are operators of its tier. -/
theorem pending_operators (draft : Draft tier) :
    ∀ operator ∈ draft.pending, operator ∈ tier.operators := by
  induction draft with
  | start => simp [pending]
  | call front asked ih => exact ih
  | group front inside ih => exact ih
  | negation front ih =>
    intro operator member
    rcases List.mem_cons.1 member with rfl | member
    · decide
    · exact ih operator member
  | first run ih =>
    intro operator member
    exact Tier.operators_unary operator (ih operator member)
  | both left right _ ih =>
    intro operator member
    rcases List.mem_append.1 member with member | member
    · exact Tier.operators_unary operator (ih operator member)
    · obtain rfl := List.mem_singleton.1 member
      decide
  | only link ih =>
    intro operator member
    exact Tier.operators_conjunction operator (ih operator member)
  | either left right _ ih =>
    intro operator member
    rcases List.mem_append.1 member with member | member
    · exact Tier.operators_conjunction operator (ih operator member)
    · obtain rfl := List.mem_singleton.1 member
      decide

/-- Reading the tokens of a draft puts out its released steps and leaves its pending operators in
front of what waited, which is not touched. -/
theorem stepsFrom_tokens (draft : Draft tier) (waiting : List Waiting)
    (settled : Settled tier waiting) (rest : Guard) :
    stepsFrom waiting (draft.tokens ++ rest) =
      (stepsFrom (draft.pending.map .operator ++ waiting) rest).map (draft.released ++ ·) := by
  induction draft generalizing waiting rest with
  | start => exact (map_nil_append _).symm
  | call front asked ih =>
    have ahead := ih waiting (settled_unary waiting) (.call asked :: rest)
    simp only [tokens, List.append_assoc, List.cons_append, List.nil_append, ahead, stepsFrom,
      map_map]
    simp [pending, released]
  | group front inside frontIh insideIh =>
    have ahead := frontIh waiting (settled_unary waiting)
      (.opening :: (inside.tokens ++ .closing :: rest))
    have opened := insideIh (.group :: (front.pending.map .operator ++ waiting))
      (settled_group _ _) (.closing :: rest)
    simp only [tokens, List.append_assoc, List.cons_append, List.nil_append, ahead, stepsFrom,
      opened, closeGroup_append, map_map]
    simp [pending, released]
  | negation front ih =>
    have ahead := ih waiting (settled_unary waiting) (.operator .negate :: rest)
    simp only [tokens, List.append_assoc, List.cons_append, List.nil_append, ahead, stepsFrom,
      release_negate, map_map]
    simp [pending, released]
  | first run ih => exact ih waiting (settled_unary waiting) rest
  | both left right leftIh rightIh =>
    -- The operator between the links releases what the left one left waiting, and no more.
    have ahead := leftIh waiting settled (.operator .both :: (right.tokens ++ rest))
    have waits := settled .both (by decide)
    have behind := rightIh (.operator .both :: waiting) (settled_unary _) rest
    have earlier : ∀ operator ∈ left.pending, comesBefore operator .both = true :=
      fun operator member => Tier.before_both operator (left.pending_operators operator member)
    have releases := release_append .both left.pending waiting earlier
    simp only [tokens, List.append_assoc, List.cons_append, ahead, stepsFrom, releases, waits,
      List.append_nil, behind, map_map]
    simp [pending, released]
  | only link ih => exact ih waiting settled.conjunction rest
  | either left right leftIh rightIh =>
    have ahead := leftIh waiting settled (.operator .either :: (right.tokens ++ rest))
    have waits := settled .either (by decide)
    have behind := rightIh (.operator .either :: waiting) (settled_either waiting) rest
    have releases := release_append .either left.pending waiting fun operator _ =>
      before_either operator
    simp only [tokens, List.append_assoc, List.cons_append, ahead, stepsFrom, releases, waits,
      List.append_nil, behind, map_map]
    simp [pending, released]

/-- The conversion of the tokens of a draft lists its steps. -/
theorem reversePolish_tokens (draft : Draft .disjunction) :
    reversePolish draft.tokens = .ok draft.steps := by
  have converted := draft.stepsFrom_tokens [] (settled_nil _) []
  simp only [List.append_nil, stepsFrom, releaseAll_operators] at converted
  exact converted

end Draft

/-- Tokens that a draft stands for. -/
def IsDraft (tokens : Guard) : Prop := ∃ draft : Draft .disjunction, draft.tokens = tokens

/-- A list without tokens is a draft. -/
theorem isDraft_nil : IsDraft [] := ⟨.only (.first .start), rfl⟩

/-- A draft whose last run can be lengthened by some tokens stays one behind them. -/
theorem IsDraft.lengthen {front more : Guard} (draft : IsDraft front)
    (extend : Draft .unary → Draft .unary)
    (extends_tokens : ∀ run, (extend run).tokens = run.tokens ++ more) :
    IsDraft (front ++ more) := by
  obtain ⟨draft, rfl⟩ := draft
  -- The last run lies in the last link, however many links and unaries there are.
  have conjunction : ∀ link : Draft .conjunction,
      ∃ longer : Draft .conjunction, longer.tokens = link.tokens ++ more := by
    intro link
    cases link with
    | first run => exact ⟨.first (extend run), by simp [Draft.tokens, extends_tokens]⟩
    | both left right => exact ⟨.both left (extend right), by simp [Draft.tokens, extends_tokens]⟩
  cases draft with
  | only link =>
    obtain ⟨longer, same⟩ := conjunction link
    exact ⟨.only longer, by simp [Draft.tokens, same]⟩
  | either left right =>
    obtain ⟨longer, same⟩ := conjunction right
    exact ⟨.either left longer, by simp [Draft.tokens, same]⟩

/-- Behind a draft any operator may stand. -/
theorem IsDraft.operator {front : Guard} (draft : IsDraft front) (operator : Operator) :
    IsDraft (front ++ [.operator operator]) := by
  cases operator with
  | negate => exact draft.lengthen .negation fun _ => rfl
  | both =>
    obtain ⟨draft, rfl⟩ := draft
    cases draft with
    | only link => exact ⟨.only (.both link .start), by simp [Draft.tokens]⟩
    | either left right => exact ⟨.either left (.both right .start), by simp [Draft.tokens]⟩
  | either =>
    obtain ⟨draft, rfl⟩ := draft
    exact ⟨.either draft (.first .start), by simp [Draft.tokens]⟩

/-- Behind a draft any call may stand. -/
theorem IsDraft.call {front : Guard} (draft : IsDraft front) (asked : Call) :
    IsDraft (front ++ [.call asked]) :=
  draft.lengthen (.call · asked) fun _ => rfl

/-- Behind a draft another one may stand in parentheses. -/
theorem IsDraft.group {front inside : Guard} (draft : IsDraft front) (nested : IsDraft inside) :
    IsDraft (front ++ .opening :: inside ++ [.closing]) := by
  obtain ⟨nested, rfl⟩ := nested
  rw [List.append_assoc]
  exact draft.lengthen (.group · nested) fun run => by simp [Draft.tokens]

/-- Changed steps come from steps. -/
theorem map_eq_ok {change : List Step → List Step} {result : Except Malformed (List Step)}
    {steps : List Step} :
    result.map change = .ok steps ↔ ∃ earlier, result = .ok earlier ∧ change earlier = steps := by
  cases result <;> simp [Except.map]

/-- The groups that wait to be closed. -/
def openGroups (waiting : List Waiting) : Nat := waiting.count .group

/-- Releasing operators closes no group. -/
theorem openGroups_release (next : Operator) (waiting : List Waiting) :
    openGroups (release next waiting).2 = openGroups waiting := by
  fun_induction release next waiting with
  | case1 top rest before steps kept released ih => simpa [openGroups, released] using ih
  | case2 top rest before => rfl
  | case3 waiting other => rfl

/-- Closing a group leaves one fewer to be closed. -/
theorem openGroups_closeGroup {waiting kept : List Waiting} {steps : List Step}
    (closed : closeGroup waiting = some (steps, kept)) :
    openGroups waiting = openGroups kept + 1 := by
  induction waiting generalizing steps with
  | nil => simp [closeGroup] at closed
  | cons top rest ih =>
    cases top with
    | group =>
      obtain ⟨-, rfl⟩ : [] = steps ∧ rest = kept := by simpa [closeGroup] using closed
      simp [openGroups]
    | operator top =>
      simp only [closeGroup, Option.map_eq_some_iff, Prod.mk.injEq] at closed
      obtain ⟨⟨later, left⟩, inner, -, rfl⟩ := closed
      simpa [openGroups] using ih inner

/-- Where everything is released no group waits. -/
theorem openGroups_releaseAll {waiting : List Waiting} {steps : List Step}
    (released : releaseAll waiting = .ok steps) : openGroups waiting = 0 := by
  induction waiting generalizing steps with
  | nil => rfl
  | cons top rest ih =>
    cases top with
    | group => simp [releaseAll] at released
    | operator top =>
      obtain ⟨later, inner, -⟩ := map_eq_ok.1 released
      simpa [openGroups] using ih inner

/-- What has been read when groups are open in each other: the part in front of each of them,
the innermost first, and the part behind the innermost parenthesis. -/
def unclosed : List Guard → Guard → Guard
  | [], inner => inner
  | front :: fronts, inner => unclosed fronts (front ++ .opening :: inner)

/-- Where the rest of a list is converted behind drafts that wait to be closed, the whole list is a
draft. -/
theorem isDraft_of_stepsFrom (waiting : List Waiting) (rest : Guard) (fronts : List Guard)
    (inner : Guard) (steps : List Step) (nested : openGroups waiting = fronts.length)
    (outer : ∀ front ∈ fronts, IsDraft front) (draft : IsDraft inner)
    (converted : stepsFrom waiting rest = .ok steps) :
    IsDraft (unclosed fronts (inner ++ rest)) := by
  induction rest generalizing waiting fronts inner steps with
  | nil =>
    have counted := openGroups_releaseAll converted
    have closed : fronts = [] := List.eq_nil_of_length_eq_zero (by omega)
    rw [closed, List.append_nil]
    exact draft
  | cons token rest ih =>
    cases token with
    | call asked =>
      obtain ⟨later, behind, -⟩ := map_eq_ok.1 converted
      have whole := ih waiting fronts _ _ nested outer (draft.call asked) behind
      simpa using whole
    | operator next =>
      obtain ⟨later, behind, -⟩ := map_eq_ok.1 converted
      have kept : openGroups (.operator next :: (release next waiting).2) = fronts.length := by
        rw [← nested, ← openGroups_release next waiting]
        simp [openGroups]
      have whole := ih _ fronts _ _ kept outer (draft.operator next) behind
      simpa using whole
    | opening =>
      have deeper : openGroups (.group :: waiting) = (inner :: fronts).length := by
        simpa [openGroups] using nested
      have each : ∀ front ∈ inner :: fronts, IsDraft front := by simpa [draft] using outer
      exact ih (.group :: waiting) (inner :: fronts) [] steps deeper each isDraft_nil converted
    | closing =>
      cases closed : closeGroup waiting with
      | none => simp [stepsFrom, closed] at converted
      | some result =>
        obtain ⟨released, kept⟩ := result
        have fewer := openGroups_closeGroup closed
        cases fronts with
        | nil => simp [fewer] at nested
        | cons front fronts =>
          simp only [stepsFrom, closed] at converted
          obtain ⟨later, behind, -⟩ := map_eq_ok.1 converted
          have left : openGroups kept = fronts.length := by
            simp only [List.length_cons] at nested
            omega
          have complete := (outer front List.mem_cons_self).group draft
          have whole := ih kept fronts _ _ left
            (fun other member => outer other (List.mem_cons_of_mem front member)) complete behind
          simpa [unclosed] using whole

/-- A list of tokens has a reverse Polish order exactly when it is that of a draft. -/
theorem reversePolish_eq_ok {guard : Guard} {steps : List Step} :
    guard.reversePolish = .ok steps ↔
      ∃ draft : Draft .disjunction, draft.tokens = guard ∧ draft.steps = steps := by
  constructor
  · intro converted
    obtain ⟨draft, rfl⟩ : IsDraft guard :=
      isDraft_of_stepsFrom [] guard [] [] steps rfl (by simp) isDraft_nil converted
    rw [draft.reversePolish_tokens, Except.ok.injEq] at converted
    exact ⟨draft, rfl, converted⟩
  · rintro ⟨draft, rfl, rfl⟩
    exact draft.reversePolish_tokens

end FormPatch.Guard
