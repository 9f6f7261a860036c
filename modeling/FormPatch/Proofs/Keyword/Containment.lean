import FormPatch.Proofs.Keyword.Segments
import FormPatch.Proofs.Statement.Braces
import FormPatch.Proofs.Statement.Containment

/-!
# Faults inside a guarded block

Inside a guarded block whose body has balanced braces, every end of the text closes more braces
than it opens. Recovery that starts there and comes to the end of the block has lost a brace, so it
goes on into what follows. A block therefore contains its faults exactly when the last attempt
inside its text reads a statement.
-/

namespace FormPatch

open Syntax Syntax.Tolerant

/-- Whether every end of a text that is not empty closes more braces than it opens. -/
def Overclosed (tokens : List Token) : Prop :=
  ∀ rest, rest <:+ tokens → rest ≠ [] → openBraces rest < 0

/-- The ends of an overclosed text are overclosed. -/
theorem Overclosed.suffix {tokens rest : List Token} (surplus : Overclosed tokens)
    (ends : rest <:+ tokens) : Overclosed rest :=
  fun shorter inside => surplus shorter (inside.trans ends)

/-- Recovery that takes all of an overclosed text takes what follows too, as if it started
there. -/
theorem Syntax.Cursor.skipFrom_overclosed {depth : Nat} {tokens : List Token}
    {shown : Position} (later : List Token) (surplus : Overclosed tokens)
    (inside : 0 < depth → openBraces tokens + depth < 0)
    (ended : (skipFrom false depth tokens shown).rest = []) :
    ∃ place, skipFrom false depth (tokens ++ later) shown = skipFrom false 0 later place := by
  fun_induction skipFrom false depth tokens shown with
  | case1 depth shown =>
    cases depth with
    | zero => exact ⟨shown, rfl⟩
    | succ depth =>
      have negative := inside (Nat.succ_pos depth)
      simp only [openBraces_nil] at negative
      omega
  | case2 token rest shown stops => exact absurd stops.2 (by decide)
  | case3 token rest shown other opens ih =>
    have whole := surplus _ List.suffix_rfl (List.cons_ne_nil token rest)
    rw [openBraces_cons, opens, braceOf_opening] at whole
    simp only [List.cons_append, skipFrom, opens, ↓reduceIte]
    exact ih (surplus.suffix (List.suffix_cons token rest)) (fun _ => by omega) ended
  | case4 token rest shown other opens ends =>
    -- A semicolon that is the last token would keep the braces.
    have whole := surplus _ List.suffix_rfl (List.cons_ne_nil token rest)
    have last : rest = [] := ended
    rw [openBraces_cons, ends, last, openBraces_nil] at whole
    exact absurd whole (by decide)
  | case5 token rest shown other opens ends ih =>
    simp only [List.cons_append, skipFrom, other, opens, ends, ↓reduceIte]
    exact ih (surplus.suffix (List.suffix_cons token rest)) (fun positive => by omega) ended
  | case6 depth token rest shown closes after ends =>
    -- The brace that closes the skipped block would have to be the last one of the text.
    have negative := inside (Nat.succ_pos depth)
    have last : rest = [] := by
      rw [Cursor.rest_look] at ended
      exact ended
    rw [openBraces_cons, closes, braceOf_closing, last, openBraces_nil] at negative
    omega
  | case7 depth token rest shown closes after goes ih =>
    have negative := inside (Nat.succ_pos depth)
    rw [openBraces_cons, closes, braceOf_closing] at negative
    have more : rest ≠ [] := by
      intro last
      rw [last, openBraces_nil] at negative
      omega
    have same : (after.extend later).word = after.word := word_extend more later
    have on : ¬(depth = 0 ∧ (after.extend later).word ≠ "else") := by rwa [same]
    have step : skipFrom false (depth + 1) (token :: rest ++ later) shown =
        skipFrom false depth (rest ++ later) token.position := by
      simp only [List.cons_append, skipFrom, closes, ↓reduceIte]
      exact if_neg on
    rw [step]
    exact ih (surplus.suffix (List.suffix_cons token rest)) (fun _ => by omega) ended
  | case8 depth token rest shown closes opens ih =>
    have negative := inside (Nat.succ_pos depth)
    rw [openBraces_cons, opens, braceOf_opening] at negative
    simp only [List.cons_append, skipFrom, opens, ↓reduceIte]
    exact ih (surplus.suffix (List.suffix_cons token rest)) (fun _ => by omega) ended
  | case9 depth token rest shown closes opens ih =>
    have negative := inside (Nat.succ_pos depth)
    rw [openBraces_cons, braceOf_eq_zero opens closes] at negative
    simp only [List.cons_append, skipFrom, closes, opens, ↓reduceIte]
    exact ih (surplus.suffix (List.suffix_cons token rest)) (fun _ => by omega) ended

/-- Behind recovery that comes to the end of an overclosed text, the segment that follows is
skipped. -/
theorem Segment.rest_recover_extend {cursor : Cursor} (surplus : Overclosed cursor.rest)
    (ended : (cursor.recover false).rest = []) (segment : Segment) :
    ((cursor.extend segment.tokens).recover false).rest = [] := by
  have alone : (Cursor.skipFrom false 0 cursor.rest cursor.shown).rest = [] := ended
  obtain ⟨place, same⟩ :=
    Cursor.skipFrom_overclosed segment.tokens surplus (fun positive => by omega) alone
  have kept : (Cursor.mk segment.tokens place).rest <:+ segment.tokens := List.suffix_rfl
  show (Cursor.skipFrom false 0 (cursor.rest ++ segment.tokens) cursor.shown).rest = []
  rw [same]
  exact Segment.rest_recover kept

/-- The patches of a segment open and close no brace. -/
theorem Segment.openBraces_suffix (segment : Segment) {rest : List Token}
    (ends : rest <:+ segment.tokens) : openBraces rest = 0 := by
  have plain := (segment.flat_tokens.suffix ends).plain
  clear ends
  induction rest with
  | nil => rfl
  | cons token rest ih =>
    obtain ⟨_, opens, closes⟩ := plain token List.mem_cons_self
    rw [openBraces_cons, braceOf_eq_zero opens closes, Int.zero_add]
    exact ih fun other inside => plain other (List.mem_cons_of_mem token inside)

/-- From an overclosed text and a segment, no expression is read past the text. -/
theorem read_ne_expression {cursor after : Cursor} {segment : Segment} {payload : KeywordPatch}
    {faults : List Located} (surplus : Overclosed cursor.rest) (more : cursor.rest ≠ [])
    (kept : after.rest <:+ segment.tokens) :
    (Statement.read KeywordPatch.grammar .resume).run (cursor.extend segment.tokens) ≠
      ⟨faults, .read (.expression payload) after⟩ := by
  intro ran
  have read := Statement.read_of_expression ran
  have braces := KeywordPatch.keepsBraces_grammar _ payload after read
  rw [Cursor.rest_look, Cursor.rest_extend, openBraces_append,
    segment.openBraces_suffix List.suffix_rfl, segment.openBraces_suffix kept] at braces
  have negative := surplus cursor.rest List.suffix_rfl more
  omega

/-- Behind an overclosed text whose attempt fails and comes to the end, a segment is not read as on
its own. -/
theorem statements_behind_failed (segment : Segment) {cursor next : Cursor}
    {faults : List Located} {error : Located} (surplus : Overclosed cursor.rest)
    (more : cursor.rest ≠ [])
    (ran : (Statement.read KeywordPatch.grammar .resume).run cursor =
      ⟨faults, .failed error next⟩)
    (recovered : (next.recover false).rest = []) (payload : KeywordPatch) :
    (Reading.ofCursor KeywordPatch.grammar .resume (cursor.extend segment.tokens)).statements ≠
      [.expression payload] := by
  have longer : (cursor.extend segment.tokens).rest ≠ [] := by simp [more]
  have kept := (Statement.read KeywordPatch.grammar .resume).suffix cursor
  have streamed := Statement.streams_read KeywordPatch.streams_grammar .resume cursor
    segment.tokens
  cases ran' : (Statement.read KeywordPatch.grammar .resume).run
      (cursor.extend segment.tokens) with
  | mk faults' outcome =>
    rw [ran] at kept
    rw [ran, ran'] at streamed
    cases outcome with
    | failed error' after =>
      have skipped : (after.recover false).rest = [] := by
        rcases streamed with same | ⟨_, past⟩
        · cases same
          exact Segment.rest_recover_extend (surplus.suffix kept) recovered segment
        · exact segment.rest_recover past
      rw [Reading.ofCursor_failed longer ran', if_neg (by decide), Reading.ofCursor_end skipped]
      intro wrong
      cases wrong
    | read statement after =>
      rcases streamed with same | ⟨_, past⟩
      · cases same
      · rw [Reading.ofCursor_read longer ran']
        intro wrong
        have first : statement = .expression payload := (List.cons.inj wrong).1
        subst first
        exact read_ne_expression surplus more past ran'

/-- Behind an overclosed text that ends with a gap, a segment is not read as on its own. -/
theorem statements_behind_gap (segment : Segment) {cursor : Cursor}
    (surplus : Overclosed cursor.rest)
    {front : List (Statement (Mark KeywordPatch))} {last : Statement (Mark KeywordPatch)}
    (split : layOut KeywordPatch.grammar cursor = front ++ [last]) (gap : last.IsGap) :
    ∃ others, (Reading.ofCursor KeywordPatch.grammar .resume
        (cursor.extend segment.tokens)).statements =
      (Reading.ofCursor KeywordPatch.grammar .resume cursor).statements ++ others ∧
        ∀ payload, others ≠ [.expression payload] := by
  induction front generalizing cursor with
  | cons first front ih =>
    rw [List.cons_append] at split
    have more : front ++ [last] ≠ [] := List.append_ne_nil_of_right_ne_nil _ (List.cons_ne_nil _ _)
    obtain ⟨faults, next, same, kept, alone, extended⟩ :=
      ofCursor_extend_of_ne KeywordPatch.streams_grammar split more segment.tokens
    have shorter := kept.trans ((Statement.read KeywordPatch.grammar .resume).suffix cursor)
    obtain ⟨others, behind, none⟩ := ih (surplus.suffix shorter) same.symm
    refine ⟨others, ?_, none⟩
    rw [extended, alone]
    simp only [Reading.after, behind, List.append_assoc]
  | nil =>
    obtain ⟨more, attempt⟩ := layOut_cases split
    rcases attempt with ⟨faults, statement, next, ran, lays, ended⟩ |
      ⟨faults, error, next, ran, _, ended⟩
    · have none := (Statement.keep_eq_nil_iff last).2 gap
      rw [Statement.LaysOut, none] at lays
      cases lays
    · have recovered := layOut_eq_nil ended.symm
      have alone : (Reading.ofCursor KeywordPatch.grammar .resume cursor).statements = [] := by
        rw [Reading.ofCursor_failed more ran, if_neg (by decide), Reading.ofCursor_end recovered]
        rfl
      rw [alone]
      exact ⟨_, rfl, statements_behind_failed segment surplus more ran recovered⟩

/-- A balanced text and a closing brace are overclosed. -/
theorem overclosed_of_balanced {body : List Token} {last : Token} (never : NeverOverclosed body)
    (balanced : openBraces body = 0) (closes : last.text = "\x7d") :
    Overclosed (body ++ [last]) := by
  intro rest ends more
  obtain ⟨front, split⟩ := ends
  have total : openBraces front + openBraces rest = -1 := by
    rw [← openBraces_append, split, openBraces_append, balanced, openBraces_cons, closes,
      braceOf_closing, openBraces_nil]
    rfl
  have shorter : front.length ≤ body.length := by
    have lengths := congrArg List.length split
    have positive := List.length_pos_iff.2 more
    simp only [List.length_append, List.length_cons, List.length_nil] at lengths
    omega
  have start : front = body.take front.length := by
    have taken := congrArg (List.take front.length) split
    rwa [List.take_left, List.take_append_of_le_length shorter] at taken
  have opened := never front.length shorter
  rw [← start] at opened
  omega

/-- A chain of one guarded block whose body has balanced braces, well-formed or not. -/
structure GuardedBlock where
  /-- The word that starts the chain. -/
  word : Token
  /-- The parenthesis in front of the guard. -/
  opening : Token
  /-- The tokens of the guard. -/
  guard : List Token
  /-- The parenthesis behind the guard. -/
  closing : Token
  /-- The brace in front of the body. -/
  brace : Token
  /-- The body. -/
  body : List Token
  /-- The brace behind the body. -/
  last : Token
  /-- The guard that is read. -/
  value : Guard
  /-- The chain starts. -/
  isWord : word.text = "if"
  /-- The guard starts. -/
  opens : opening.text = "("
  /-- The guard ends. -/
  closes : closing.text = ")"
  /-- The body starts. -/
  starts : brace.text = "\x7b"
  /-- The body ends. -/
  ends : last.text = "\x7d"
  /-- The guard is accepted. -/
  accepted : ∃ shown, Guard.read.run ⟨guard ++ [closing], opening.position⟩ =
    .read value ⟨[closing], shown⟩
  /-- No start of the body closes more braces than it opens. -/
  never : NeverOverclosed body
  /-- The body closes all its braces. -/
  balanced : openBraces body = 0

namespace GuardedBlock

/-- The tokens of a guarded block. -/
def tokens (block : GuardedBlock) : List Token :=
  block.word :: block.opening :: block.guard ++
    block.closing :: block.brace :: (block.body ++ [block.last])

/-- A block does not start with an else. -/
theorem apart (block : GuardedBlock) : ¬StartsWith "else" block.tokens := by
  intro starts
  have same : some block.word.text = some "else" := starts
  rw [block.isWord] at same
  exact absurd same (by decide)

/-- The first attempt on a guarded block takes what stands in front of its body. -/
theorem rest_read (block : GuardedBlock) :
    ((Statement.read KeywordPatch.grammar .resume).run (.ofTokens block.tokens)).cursor.rest <:+
      block.body ++ [block.last] := by
  obtain ⟨shown, accepted⟩ := block.accepted
  have streamed := (Guard.streams_read ⟨block.guard ++ [block.closing],
    block.opening.position⟩).run_extend (by rw [accepted]; exact List.cons_ne_nil _ _)
    (block.brace :: (block.body ++ [block.last]))
  rw [accepted] at streamed
  have longer : (Cursor.mk (block.guard ++ [block.closing]) block.opening.position).extend
      (block.brace :: (block.body ++ [block.last])) =
    ⟨block.guard ++ block.closing :: block.brace :: (block.body ++ [block.last]),
      block.opening.position⟩ := by
    simp [Cursor.extend]
  rw [longer] at streamed
  exact Statement.rest_read_of_header block.isWord block.opens block.closes block.starts streamed

/-- Whether a guarded block behind some text contains its faults: whatever follows, the statements
in front are followed by one chain and then by what follows read on its own, with its faults. -/
def IsContained (front : List Token) (block : GuardedBlock) : Prop :=
  ∀ later, (∀ token ∈ later, token.text ≠ "") → ¬StartsWith "else" later →
    ∃ guard body otherwise faults,
      Reading.ofTokens KeywordPatch.grammar .resume (front ++ block.tokens ++ later) =
        ⟨(Reading.ofTokens KeywordPatch.grammar .resume front).statements ++
            .conditional guard body otherwise ::
              (Reading.ofTokens KeywordPatch.grammar .resume later).statements,
          faults ++ (Reading.ofTokens KeywordPatch.grammar .resume later).faults⟩

/-- Whether the layout of a guarded block ends with a chain, with nothing but gaps before. -/
def EndsWithChain (block : GuardedBlock) : Prop :=
  ∃ gaps guard body otherwise, (∀ gap ∈ gaps, gap.IsGap) ∧
    layOut KeywordPatch.grammar (.ofTokens block.tokens) =
      gaps ++ [.conditional guard body otherwise]

/-- Behind a text without faults, a guarded block and what follows it are read on their own. -/
theorem ofTokens_front {front : List Token} (block : GuardedBlock)
    (clean : (Reading.ofTokens KeywordPatch.grammar .resume front).faults = [])
    (later : List Token) :
    Reading.ofTokens KeywordPatch.grammar .resume (front ++ block.tokens ++ later) =
      (Reading.ofCursor KeywordPatch.grammar .resume
        ((Cursor.ofTokens block.tokens).extend later)).after []
          (Reading.ofTokens KeywordPatch.grammar .resume front).statements := by
  have apart : ¬StartsWith "else" (block.tokens ++ later) := block.apart
  have whole : Reading.ofTokens KeywordPatch.grammar .resume (front ++ block.tokens ++ later) =
      Reading.ofCursor KeywordPatch.grammar .resume
        ((Cursor.ofTokens front).extend (block.tokens ++ later)) := by
    rw [List.append_assoc]
    rfl
  rw [whole, Reading.ofCursor_extend KeywordPatch.streams_grammar _ clean apart]
  rfl

/-- A block whose layout ends with a chain contains its faults. -/
theorem isContained_of_endsWithChain {front : List Token} {block : GuardedBlock}
    (clean : (Reading.ofTokens KeywordPatch.grammar .resume front).faults = [])
    (chain : block.EndsWithChain) : IsContained front block := by
  intro later _ apart
  obtain ⟨gaps, guard, body, otherwise, none, split⟩ := chain
  have streamed := ofCursor_extend_of_last KeywordPatch.streams_grammar split
    (fun gap => by cases gap) apart
  have kept := keepAll_layOut KeywordPatch.grammar (.ofTokens block.tokens)
  rw [split, Statement.keepAll_append, (Statement.keepAll_eq_nil_iff gaps).2 none,
    List.nil_append, Statement.keepAll, Statement.keep] at kept
  refine ⟨guard, Statement.keepAll Mark.payload? body, Otherwise.keep Mark.payload? otherwise,
    (Reading.ofTokens KeywordPatch.grammar .resume block.tokens).faults, ?_⟩
  rw [ofTokens_front block clean, streamed, ← kept]
  rfl

/-- A block that contains its faults is read as one chain in front of what follows. -/
theorem statements_of_isContained {front later : List Token} {block : GuardedBlock}
    (clean : (Reading.ofTokens KeywordPatch.grammar .resume front).faults = [])
    (contained : IsContained front block) (named : ∀ token ∈ later, token.text ≠ "")
    (apart : ¬StartsWith "else" later) :
    ∃ guard body otherwise, (Reading.ofCursor KeywordPatch.grammar .resume
        ((Cursor.ofTokens block.tokens).extend later)).statements =
      .conditional guard body otherwise ::
        (Reading.ofTokens KeywordPatch.grammar .resume later).statements := by
  obtain ⟨guard, body, otherwise, faults, reading⟩ := contained later named apart
  rw [ofTokens_front block clean] at reading
  have statements := congrArg Reading.statements reading
  exact ⟨guard, body, otherwise, List.append_cancel_left statements⟩

/-- On its own, a block that contains its faults is read as one chain. -/
theorem alone_of_isContained {front : List Token} {block : GuardedBlock}
    (clean : (Reading.ofTokens KeywordPatch.grammar .resume front).faults = [])
    (contained : IsContained front block) :
    ∃ guard body otherwise, (Reading.ofTokens KeywordPatch.grammar .resume
      block.tokens).statements = [.conditional guard body otherwise] := by
  have apart : ¬StartsWith "else" [] := by decide
  have named : ∀ token ∈ ([] : List Token), token.text ≠ "" := fun token inside => by cases inside
  have alone := statements_of_isContained clean contained named apart
  have ended : (Reading.ofTokens KeywordPatch.grammar .resume []).statements = [] := by
    rw [Reading.ofTokens, Reading.ofCursor_end rfl]
  rwa [Cursor.extend_nil, ended] at alone

/-- Where the last of several attempts in a block leaves a gap, the gap takes in a segment that
follows, so the block does not contain its faults. -/
theorem not_isContained_of_gap {front : List Token} {block : GuardedBlock}
    (clean : (Reading.ofTokens KeywordPatch.grammar .resume front).faults = [])
    {start last : Statement (Mark KeywordPatch)} {between : List (Statement (Mark KeywordPatch))}
    (split : layOut KeywordPatch.grammar (.ofTokens block.tokens) = start :: (between ++ [last]))
    (gap : last.IsGap) : ¬IsContained front block := by
  intro contained
  obtain ⟨guard, body, otherwise, alone⟩ := alone_of_isContained clean contained
  have more : between ++ [last] ≠ [] :=
    List.append_ne_nil_of_right_ne_nil _ (List.cons_ne_nil _ _)
  obtain ⟨faults, next, behind, left, single, extended⟩ :=
    ofCursor_extend_of_ne KeywordPatch.streams_grammar split more Segment.complete.tokens
  have surplus := (overclosed_of_balanced block.never block.balanced block.ends).suffix
    (left.trans block.rest_read)
  obtain ⟨added, follows, wrong⟩ :=
    statements_behind_gap Segment.complete surplus behind.symm gap
  have total : (Reading.ofCursor KeywordPatch.grammar .resume
        ((Cursor.ofTokens block.tokens).extend Segment.complete.tokens)).statements =
      (Reading.ofTokens KeywordPatch.grammar .resume block.tokens).statements ++ added := by
    rw [Reading.ofTokens, extended, single]
    simp only [Reading.after, follows, List.append_assoc]
  have named : ∀ token ∈ Segment.complete.tokens, token.text ≠ "" := by decide
  have apart : ¬StartsWith "else" Segment.complete.tokens := by decide
  obtain ⟨guard', body', otherwise', both⟩ :=
    statements_of_isContained clean contained named apart
  rw [both, alone, Segment.ofTokens_complete, List.singleton_append, List.cons.injEq] at total
  exact wrong _ total.2.symm

/-- The layout of a block that contains its faults ends with the chain that is read from it. -/
theorem endsWithChain_of_isContained {front : List Token} {block : GuardedBlock}
    (clean : (Reading.ofTokens KeywordPatch.grammar .resume front).faults = [])
    (contained : IsContained front block) : block.EndsWithChain := by
  obtain ⟨guard, body, otherwise, alone⟩ := alone_of_isContained clean contained
  have kept := keepAll_layOut KeywordPatch.grammar (.ofTokens block.tokens)
  change _ = (Reading.ofTokens KeywordPatch.grammar .resume block.tokens).statements at kept
  rw [alone] at kept
  obtain ⟨gaps, first, behind, split, none, lays, rest⟩ := Statement.keepAll_eq_singleton kept
  cases first with
  | expression mark =>
    cases mark with
    | gap tokens => cases lays
    | expression payload place => cases lays
  | conditional guard' body' otherwise' =>
    rcases List.eq_nil_or_concat behind with empty | ⟨others, last, joined⟩
    · subst empty
      exact ⟨gaps, guard', body', otherwise', none, split⟩
    · rw [List.concat_eq_append] at joined
      subst joined
      have gap : last.IsGap := rest last (List.mem_append_right others List.mem_cons_self)
      cases gaps with
      | nil => exact absurd contained (not_isContained_of_gap clean split gap)
      | cons start gaps =>
        have longer : layOut KeywordPatch.grammar (.ofTokens block.tokens) =
            start :: (gaps ++ .conditional guard' body' otherwise' :: others ++ [last]) := by
          rw [split, List.cons_append, List.append_assoc, List.cons_append]
        exact absurd contained (not_isContained_of_gap clean longer gap)

/-- The tokens of a question whether a plugin exists. -/
def pluginGuard : List Token :=
  [⟨"IsPluginExists", 4, ⟨1, 5⟩⟩, ⟨"(", 18, ⟨1, 19⟩⟩, ⟨"\"A\"", 19, ⟨1, 20⟩⟩,
    ⟨")", 22, ⟨1, 23⟩⟩]

/-- The question whether a plugin exists is read as a guard. -/
theorem accepted_pluginGuard :
    Guard.read.run ⟨pluginGuard ++ [⟨")", 23, ⟨1, 24⟩⟩], ⟨1, 4⟩⟩ =
      .read [.call ⟨.isPluginExists, "A"⟩] ⟨[⟨")", 23, ⟨1, 24⟩⟩], ⟨1, 24⟩⟩ := by
  have element : (Guard.readElement (Guard.readGroup 63) none "IsPluginExists").run
      ⟨pluginGuard ++ [⟨")", 23, ⟨1, 24⟩⟩], ⟨1, 5⟩⟩ =
        .read [.call ⟨.isPluginExists, "A"⟩] ⟨[⟨")", 23, ⟨1, 24⟩⟩], ⟨1, 23⟩⟩ := rfl
  have rest : (Guard.groupFrom (Guard.readGroup 63) (some (.call ⟨.isPluginExists, "A"⟩))).run
      ⟨[⟨")", 23, ⟨1, 24⟩⟩], ⟨1, 23⟩⟩ = .read [] ⟨[⟨")", 23, ⟨1, 24⟩⟩], ⟨1, 24⟩⟩ := by
    have closes : (Cursor.mk [⟨")", 23, ⟨1, 24⟩⟩] ⟨1, 23⟩).word = ")" := rfl
    rw [Guard.run_groupFrom_of_closing closes]
    rfl
  show (Guard.groupFrom (Guard.readGroup 63) none).run _ = _
  rw [Guard.run_groupFrom (List.cons_ne_nil _ _) (by decide)]
  refine Reader.bind_eq_read.2 ⟨_, _, element, ?_⟩
  exact Reader.bind_eq_read.2 ⟨_, _, rest, rfl⟩

/-- A body behind the question whether a plugin exists. -/
def behindPlugin (body : List Token) (never : NeverOverclosed body)
    (balanced : openBraces body = 0) : GuardedBlock where
  word := ⟨"if", 0, ⟨1, 1⟩⟩
  opening := ⟨"(", 3, ⟨1, 4⟩⟩
  guard := pluginGuard
  closing := ⟨")", 23, ⟨1, 24⟩⟩
  brace := ⟨"\x7b", 25, ⟨1, 26⟩⟩
  body := body
  last := ⟨"\x7d", 44, ⟨1, 45⟩⟩
  value := [.call ⟨.isPluginExists, "A"⟩]
  isWord := rfl
  opens := rfl
  closes := rfl
  starts := rfl
  ends := rfl
  accepted := ⟨⟨1, 24⟩, accepted_pluginGuard⟩
  never := never
  balanced := balanced

/-- A block with a statement that breaks off in front of its closing brace. -/
def brokenBody : GuardedBlock :=
  behindPlugin [⟨"FilterByEditorID", 27, ⟨1, 28⟩⟩] (by decide) (by decide)

/-- Behind a text without faults, a guarded block contains its faults exactly when its layout ends
with a chain, with nothing but gaps before. -/
theorem isContained_iff (front : List Token) (block : GuardedBlock)
    (clean : (Reading.ofTokens KeywordPatch.grammar .resume front).faults = []) :
    IsContained front block ↔ block.EndsWithChain :=
  ⟨endsWithChain_of_isContained clean, isContained_of_endsWithChain clean⟩

/-- A block with a statement that is no patch but has its semicolon. -/
def faultyBody : GuardedBlock :=
  behindPlugin [⟨"Foo", 27, ⟨1, 28⟩⟩, ⟨"=", 31, ⟨1, 32⟩⟩, ⟨"1", 33, ⟨1, 34⟩⟩,
    ⟨";", 34, ⟨1, 35⟩⟩] (by decide) (by decide)

/-- Whether statements are one chain. -/
def isChain {α : Type} : List (Statement α) → Bool
  | [.conditional _ _ _] => true
  | _ => false

/-- The layout of the block is one chain. -/
theorem endsWithChain_faultyBody : faultyBody.EndsWithChain := by
  have chain : isChain (layOut KeywordPatch.grammar (.ofTokens faultyBody.tokens)) = true := by
    decide +kernel
  unfold isChain at chain
  split at chain
  · next guard body otherwise same => exact ⟨[], guard, body, otherwise, by simp, same⟩
  · cases chain

/-- Behind a whole statement, the block contains the fault that is in it. -/
theorem isContained_iff_of_faultyBody :
    (Reading.ofTokens KeywordPatch.grammar .resume Segment.complete.tokens).faults = [] ∧
      (Reading.ofTokens KeywordPatch.grammar .resume faultyBody.tokens).faults.length = 1 ∧
      IsContained Segment.complete.tokens faultyBody := by
  have clean : (Reading.ofTokens KeywordPatch.grammar .resume
      Segment.complete.tokens).faults = [] := by
    rw [Segment.ofTokens_complete]
  exact ⟨clean, by decide +kernel,
    (isContained_iff Segment.complete.tokens faultyBody clean).2 endsWithChain_faultyBody⟩

/-- The brace behind a statement that breaks off is taken for its parenthesis, the block stays open
and what follows it is lost. -/
theorem brokenBody_not_contained :
    (Reading.ofTokens KeywordPatch.grammar .resume []).faults = [] ∧
      (∀ token ∈ brokenBody.tokens, token.text ≠ "") ∧ ¬IsContained [] brokenBody := by
  refine ⟨by rw [Reading.ofTokens, Reading.ofCursor_end rfl], by decide, ?_⟩
  intro contained
  obtain ⟨guard, body, otherwise, faults, reading⟩ :=
    contained Segment.complete.tokens (by decide) (by decide)
  have none : (Reading.ofTokens KeywordPatch.grammar .resume
      ([] ++ brokenBody.tokens ++ Segment.complete.tokens)).statements.length = 0 := by
    decide +kernel
  rw [reading, List.length_append, List.length_cons] at none
  omega

end GuardedBlock

end FormPatch
