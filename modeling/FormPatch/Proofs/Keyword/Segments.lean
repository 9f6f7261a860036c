import FormPatch.Proofs.Keyword.Streaming
import FormPatch.Proofs.Keyword.Words
import FormPatch.Proofs.Statement.Reading

/-!
# Keyword statements one after another

A text of keyword patches without blocks falls into segments, each of which ends in its only
semicolon. A segment that is wrong costs itself, as its fault is recovered from at its semicolon.
A segment that breaks off costs more: where its words run out before the patch is complete, the
semicolon is taken for the next word, and recovery skips the segment behind it.
-/

namespace FormPatch

open Syntax

/-- Each statement and each fault of a text without blocks has cost a semicolon. -/
theorem KeywordPatch.statements_add_faults_le (cursor : Cursor) (flat : IsFlat cursor.rest) :
    (Reading.ofCursor grammar .resume cursor).statements.length +
      (Reading.ofCursor grammar .resume cursor).faults.length ≤ semicolons cursor.rest := by
  induction measured : cursor.rest.length using Nat.strongRecOn generalizing cursor with
  | ind length ih =>
    by_cases ended : cursor.rest = []
    · rw [Reading.ofCursor_end ended]
      exact Nat.zero_le _
    · have progress := grammar.progresses cursor.look (by rwa [Cursor.rest_look])
      have kept := grammar.read.suffix cursor.look
      cases ran : grammar.read.run cursor.look with
      | read patch next =>
        rw [ran, Outcome.cursor_read, Cursor.rest_look] at progress kept
        have taken := takesSemicolon_read cursor.look patch next ran
        rw [Cursor.rest_look] at taken
        have rest := ih _ (measured ▸ progress) next (flat.suffix kept) rfl
        rw [Reading.ofCursor_expression ended flat.word_ne ran]
        simp only [Reading.after, List.length_append, List.length_cons, List.length_nil]
        omega
      | failed error next =>
        rw [ran, Outcome.cursor_failed, Cursor.rest_look] at progress kept
        have left := next.recover_suffix false
        have shorter : (next.recover false).rest.length < length := by
          have fewer := left.length_le
          omega
        have rest := ih _ shorter (next.recover false) (flat.suffix (left.trans kept)) rfl
        have fewer := flat.semicolons_recover_lt ended kept false
        rw [Reading.ofCursor_expression_failed ended flat.word_ne ran]
        simp only [Reading.after, List.length_append, List.length_cons, List.length_nil]
        omega

/-- A statement up to its semicolon, well-formed or not. -/
structure Segment where
  /-- What stands in front of the semicolon. -/
  body : List Token
  /-- The semicolon. -/
  stop : Token
  /-- The semicolon is the only one, no chain starts and there is no brace. -/
  plain : ∀ token ∈ body, token.text ≠ ";" ∧ token.text ≠ "if" ∧ token.text ≠ "\x7b" ∧
    token.text ≠ "\x7d"
  /-- The last token is a semicolon. -/
  stops : stop.text = ";"

namespace Segment

/-- The tokens of a segment. -/
def tokens (segment : Segment) : List Token := segment.body ++ [segment.stop]

/-- The patch that a segment stands for, if it is read without a fault on its own. -/
def alone (segment : Segment) : Option KeywordPatch :=
  match Reading.ofTokens KeywordPatch.grammar .resume segment.tokens with
  | ⟨[.expression patch], []⟩ => some patch
  | _ => none

/-- Whether the words of a segment run out where another one must stand. -/
def breaksOff (segment : Segment) : Bool :=
  match segment.body with
  | [] => true
  | word :: words => cutShort (KeywordPatch.tests word.text) words

/-- From a segment that breaks off, no patch is read, and the reader stops behind it. -/
theorem read_of_breaksOff {segment : Segment} (cut : segment.breaksOff = true)
    (later : List Token) (shown : Position) :
    ∃ error after, KeywordPatch.read.run ⟨segment.tokens ++ later, shown⟩ = .failed error after ∧
      after.rest <:+ later := by
  obtain ⟨body, stop, plain, stops⟩ := segment
  cases body with
  | nil =>
    have unknown : KeywordPatch.filterTests? stop.text = none := by
      rw [stops]
      decide
    obtain ⟨error, ran⟩ :=
      KeywordPatch.run_readBehind_of_unknown unknown ⟨later, stop.position⟩
    have first := KeywordPatch.run_read_cons stop later shown
    exact ⟨error, _, first.trans ran, Cursor.take_suffix _⟩
  | cons word words =>
    have split : tokens ⟨word :: words, stop, plain, stops⟩ ++ later =
        word :: (words ++ stop :: later) := by
      simp [tokens]
    rw [split, KeywordPatch.run_read_cons]
    cases known : KeywordPatch.filterTests? word.text with
    | none =>
      obtain ⟨error, ran⟩ := KeywordPatch.run_readBehind_of_unknown known
        ⟨words ++ stop :: later, word.position⟩
      refine ⟨error, _, ran, ?_⟩
      cases words with
      | nil => exact List.suffix_rfl
      | cons second words => simp [breaksOff, KeywordPatch.tests, known, cutShort] at cut
    | some tests =>
      have follows := KeywordPatch.follows_readBehind known ⟨words ++ stop :: later, word.position⟩
      have checked := check_of_cutShort later stops (KeywordPatch.tests_semicolon word.text) cut
      rw [checked, Prod.mk.injEq] at follows
      obtain ⟨unread, left⟩ := follows
      cases ran : (KeywordPatch.readBehind word.text).run
          ⟨words ++ stop :: later, word.position⟩ with
      | read patch after =>
        rw [ran] at unread
        cases unread
      | failed error after =>
        rw [ran, Outcome.cursor_failed] at left
        exact ⟨error, after, rfl, left ▸ List.suffix_rfl⟩

/-- From another segment, a patch is read or the reader stops before its end. -/
theorem read_of_whole {segment : Segment} (whole : segment.breaksOff = false) (shown : Position)
    {error : Located} {after : Cursor}
    (ran : KeywordPatch.read.run ⟨segment.tokens, shown⟩ = .failed error after) :
    after.rest ≠ [] := by
  obtain ⟨body, stop, plain, stops⟩ := segment
  cases body with
  | nil => cases whole
  | cons word words =>
    have split : tokens ⟨word :: words, stop, plain, stops⟩ = word :: (words ++ [stop]) := rfl
    rw [split, KeywordPatch.run_read_cons] at ran
    cases known : KeywordPatch.filterTests? word.text with
    | none =>
      obtain ⟨error', ran'⟩ := KeywordPatch.run_readBehind_of_unknown known
        ⟨words ++ [stop], word.position⟩
      rw [ran', Outcome.failed.injEq] at ran
      obtain ⟨_, rfl⟩ := ran
      cases words with
      | nil => simp [breaksOff, KeywordPatch.tests, known, cutShort] at whole
      | cons second words => simp [Cursor.take]
    | some tests =>
      have follows := KeywordPatch.follows_readBehind known ⟨words ++ [stop], word.position⟩
      have free : ∀ token ∈ words, token.text ≠ ";" :=
        fun token inside => (plain token (List.mem_cons_of_mem word inside)).1
      have checked := check_of_not_cutShort free stops whole
      rw [← follows, ran] at checked
      intro ended
      apply checked
      rw [Outcome.cursor_failed, ended]
      rfl

/-- The tokens of a segment hold no chain and no block. -/
theorem flat_tokens (segment : Segment) : IsFlat segment.tokens := by
  constructor
  · intro token inside
    rcases List.mem_append.1 inside with inside | last
    · exact (segment.plain token inside).2
    · rw [List.mem_singleton.1 last, segment.stops]
      decide
  · intro token last
    rw [tokens, List.getLast?_append, List.getLast?_singleton, Option.some_or,
      Option.mem_some] at last
    rw [← last]
    exact segment.stops

/-- A segment has one semicolon. -/
theorem semicolons_tokens (segment : Segment) : semicolons segment.tokens = 1 := by
  have free : segment.body.countP (fun token => token.text == ";") = 0 := by
    apply List.countP_eq_zero.2
    intro token inside
    simpa using (segment.plain token inside).1
  rw [tokens, semicolons, List.countP_append, free, List.countP_singleton, segment.stops]
  rfl

/-- A segment is not empty. -/
theorem tokens_ne_nil (segment : Segment) : segment.tokens ≠ [] := by
  rw [tokens]
  exact List.append_ne_nil_of_right_ne_nil _ (List.cons_ne_nil _ _)

/-- The cursor before a segment. -/
def start (segment : Segment) : Cursor := .ofTokens segment.tokens

/-- A segment does not start with a chain. -/
theorem start_word_ne (segment : Segment) : segment.start.word ≠ "if" :=
  IsFlat.word_ne segment.flat_tokens

/-- A text that starts with a segment starts with an attempt on an expression. -/
theorem extend_word_ne (segment : Segment) (later : List Token) :
    (segment.start.extend later).word ≠ "if" := by
  rw [Cursor.word_extend segment.tokens_ne_nil]
  exact segment.start_word_ne

/-- A patch that is read from a segment is all of it. -/
theorem rest_of_read {segment : Segment} {patch : KeywordPatch} {next : Cursor}
    (ran : KeywordPatch.read.run segment.start.look = .read patch next) : next.rest = [] := by
  have kept := KeywordPatch.read.suffix segment.start.look
  rw [ran, Outcome.cursor_read, Cursor.rest_look] at kept
  have taken := KeywordPatch.takesSemicolon_read segment.start.look patch next ran
  rw [Cursor.rest_look] at taken
  have one : semicolons segment.start.rest = 1 := segment.semicolons_tokens
  exact (segment.flat_tokens.suffix kept).eq_nil (by omega)

/-- Recovery within a segment ends with it. -/
theorem rest_recover {segment : Segment} {next : Cursor} (kept : next.rest <:+ segment.tokens) :
    (next.recover false).rest = [] := by
  have left := (next.recover_suffix false).trans kept
  have fewer := segment.flat_tokens.semicolons_recover_lt segment.tokens_ne_nil kept false
  have one := segment.semicolons_tokens
  exact (segment.flat_tokens.suffix left).eq_nil (by omega)

/-- A segment from which a patch is read is that patch. -/
theorem ofTokens_of_read {segment : Segment} {patch : KeywordPatch} {next : Cursor}
    (ran : KeywordPatch.read.run segment.start.look = .read patch next) :
    Reading.ofTokens KeywordPatch.grammar .resume segment.tokens =
      ⟨[.expression patch], []⟩ := by
  have first : Reading.ofCursor KeywordPatch.grammar .resume segment.start =
      (Reading.ofCursor KeywordPatch.grammar .resume next).after [] [.expression patch] :=
    Reading.ofCursor_expression segment.tokens_ne_nil segment.start_word_ne ran
  rw [Reading.ofCursor_end (rest_of_read ran)] at first
  exact first

/-- A segment from which none is read is a fault. -/
theorem ofTokens_of_failed {segment : Segment} {error : Located} {next : Cursor}
    (ran : KeywordPatch.read.run segment.start.look = .failed error next) :
    Reading.ofTokens KeywordPatch.grammar .resume segment.tokens = ⟨[], [error]⟩ := by
  have kept := KeywordPatch.read.suffix segment.start.look
  rw [ran, Outcome.cursor_failed, Cursor.rest_look] at kept
  have first : Reading.ofCursor KeywordPatch.grammar .resume segment.start =
      (Reading.ofCursor KeywordPatch.grammar .resume (next.recover false)).after [error] [] :=
    Reading.ofCursor_expression_failed segment.tokens_ne_nil segment.start_word_ne ran
  rw [Reading.ofCursor_end (rest_recover kept)] at first
  exact first

/-- A segment that does not break off costs no other: what follows it is read on its own. -/
theorem ofTokens_append_of_whole {segment : Segment} (whole : segment.breaksOff = false)
    (later : List Token) :
    Reading.ofTokens KeywordPatch.grammar .resume (segment.tokens ++ later) =
      (Reading.ofTokens KeywordPatch.grammar .resume later).after
        (Reading.ofTokens KeywordPatch.grammar .resume segment.tokens).faults
        (Reading.ofTokens KeywordPatch.grammar .resume segment.tokens).statements := by
  have more : segment.start.rest ≠ [] := segment.tokens_ne_nil
  have longer : (segment.start.extend later).rest ≠ [] := by simp [more]
  have other : (segment.start.extend later).word ≠ "if" := segment.extend_word_ne later
  have looked := Cursor.look_extend more later
  show Reading.ofCursor KeywordPatch.grammar .resume (segment.start.extend later) = _
  cases ran : KeywordPatch.read.run segment.start.look with
  | read patch next =>
    have stands := KeywordPatch.standsBefore_read later segment.start.look patch next ran
    rw [← looked] at stands
    have left : (next.extend later).rest = (Cursor.ofTokens later).rest := by
      rw [Cursor.rest_extend, rest_of_read ran]
      rfl
    rw [ofTokens_of_read ran, Reading.ofCursor_expression longer other stands,
      Reading.ofCursor_congr left]
    rfl
  | failed error next =>
    have kept := KeywordPatch.read.suffix segment.start.look
    rw [ran, Outcome.cursor_failed, Cursor.rest_look] at kept
    have inside : next.rest ≠ [] := by
      have placed : segment.start.look =
          ⟨segment.tokens, segment.start.look.shown⟩ := by
        rw [← show segment.start.look.rest = segment.tokens from Cursor.rest_look _]
      rw [placed] at ran
      exact read_of_whole whole _ ran
    have streamed := (KeywordPatch.streams_read segment.start.look).run_extend
      (by rwa [ran]) later
    rw [ran, ← looked] at streamed
    have left : ((next.extend later).recover false).rest = (Cursor.ofTokens later).rest := by
      rw [(segment.flat_tokens.suffix kept).recover_extend inside, rest_recover kept]
      rfl
    rw [ofTokens_of_failed ran, Reading.ofCursor_expression_failed longer other streamed,
      Reading.ofCursor_congr left]
    rfl

/-- A segment that breaks off in front of others costs one of them. -/
theorem statements_add_faults_of_breaksOff {segment : Segment} (cut : segment.breaksOff = true)
    {later : List Token} (flat : IsFlat later) (more : later ≠ []) :
    (Reading.ofTokens KeywordPatch.grammar .resume (segment.tokens ++ later)).statements.length +
        (Reading.ofTokens KeywordPatch.grammar .resume (segment.tokens ++ later)).faults.length ≤
      semicolons later := by
  have longer : (segment.start.extend later).rest ≠ [] := by simp [start, Cursor.ofTokens, more]
  have other : (segment.start.extend later).word ≠ "if" := segment.extend_word_ne later
  have placed : (segment.start.extend later).look =
      ⟨segment.tokens ++ later, (segment.start.extend later).look.shown⟩ := by
    rw [← show (segment.start.extend later).look.rest = segment.tokens ++ later from
      Cursor.rest_look _]
  obtain ⟨error, next, ran, kept⟩ :=
    read_of_breaksOff cut later (segment.start.extend later).look.shown
  rw [← placed] at ran
  have reading : Reading.ofTokens KeywordPatch.grammar .resume (segment.tokens ++ later) =
      (Reading.ofCursor KeywordPatch.grammar .resume (next.recover false)).after [error] [] :=
    Reading.ofCursor_expression_failed longer other ran
  have rest := KeywordPatch.statements_add_faults_le (next.recover false)
    (flat.suffix ((next.recover_suffix false).trans kept))
  have fewer := flat.semicolons_recover_lt more kept false
  rw [reading]
  simp only [Reading.after, List.length_append, List.length_cons, List.length_nil]
  omega

/-- On its own, a segment is a patch or a fault. -/
theorem alone_cases (segment : Segment) :
    (∃ patch, segment.alone = some patch ∧
        Reading.ofTokens KeywordPatch.grammar .resume segment.tokens =
          ⟨[.expression patch], []⟩) ∨
      ∃ error, segment.alone = none ∧
        Reading.ofTokens KeywordPatch.grammar .resume segment.tokens = ⟨[], [error]⟩ := by
  cases ran : KeywordPatch.read.run segment.start.look with
  | read patch next =>
    have read := ofTokens_of_read ran
    exact .inl ⟨patch, by rw [alone, read], read⟩
  | failed error next =>
    have failed := ofTokens_of_failed ran
    exact .inr ⟨error, by rw [alone, failed], failed⟩

/-- The text of some segments. -/
def joined (segments : List Segment) : List Token := segments.flatMap tokens

/-- The tokens of segments in a row hold no chain and no block. -/
theorem flat_joined (segments : List Segment) : IsFlat (joined segments) := by
  induction segments with
  | nil =>
    constructor
    · intro token inside
      cases inside
    · intro token last
      cases last
  | cons segment segments ih =>
    constructor
    · intro token inside
      rcases List.mem_append.1 inside with inside | inside
      · exact segment.flat_tokens.plain token inside
      · exact ih.plain token inside
    · intro token last
      have split : joined (segment :: segments) = segment.tokens ++ joined segments :=
        List.flatMap_cons
      rw [split, List.getLast?_append] at last
      cases behind : (joined segments).getLast? with
      | some other =>
        rw [behind, Option.some_or, Option.mem_some] at last
        exact ih.ended token (by rw [behind, last]; rfl)
      | none =>
        rw [behind, Option.none_or] at last
        exact segment.flat_tokens.ended token last

/-- Segments in a row have one semicolon each. -/
theorem semicolons_joined (segments : List Segment) :
    semicolons (joined segments) = segments.length := by
  induction segments with
  | nil => rfl
  | cons segment segments ih =>
    have split : joined (segment :: segments) = segment.tokens ++ joined segments :=
      List.flatMap_cons
    have first := segment.semicolons_tokens
    rw [split, semicolons, List.countP_append, List.length_cons]
    rw [semicolons] at first ih
    omega

/-- Whether each segment is read as on its own: in order, the patches of those that are read, and
one fault for each of the others. -/
def Independent (segments : List Segment) : Prop :=
  (Reading.ofTokens KeywordPatch.grammar .resume (joined segments)).statements =
      (segments.filterMap alone).map .expression ∧
    (Reading.ofTokens KeywordPatch.grammar .resume (joined segments)).faults.length =
      segments.countP fun segment => segment.alone.isNone

/-- Segments that are read as on their own leave a statement or a fault each. -/
theorem Independent.count {segments : List Segment} (independent : Independent segments) :
    (Reading.ofTokens KeywordPatch.grammar .resume (joined segments)).statements.length +
        (Reading.ofTokens KeywordPatch.grammar .resume (joined segments)).faults.length =
      segments.length := by
  have parts : ∀ list : List Segment, (list.filterMap alone).length +
      list.countP (fun segment => segment.alone.isNone) = list.length := by
    intro list
    induction list with
    | nil => rfl
    | cons segment list ih =>
      cases found : segment.alone with
      | none =>
        rw [List.filterMap_cons_none found, List.countP_cons_of_pos (by simp [found]),
          List.length_cons]
        omega
      | some patch =>
        rw [List.filterMap_cons_some found, List.countP_cons_of_neg (by simp [found]),
          List.length_cons, List.length_cons]
        omega
  rw [independent.1, independent.2, List.length_map]
  exact parts segments

/-- Behind a segment that does not break off, segments are independent exactly when they are
without it. -/
theorem independent_cons_of_whole {segment : Segment} (whole : segment.breaksOff = false)
    (segments : List Segment) :
    Independent (segment :: segments) ↔ Independent segments := by
  have split : joined (segment :: segments) = segment.tokens ++ joined segments :=
    List.flatMap_cons
  have reading := ofTokens_append_of_whole whole (joined segments)
  rw [Independent, Independent, split, reading]
  rcases segment.alone_cases with ⟨patch, found, read⟩ | ⟨error, none, failed⟩
  · rw [read, List.filterMap_cons_some found, List.countP_cons_of_neg (by simp [found])]
    simp only [Reading.after, List.map_cons, List.singleton_append, List.nil_append,
      List.cons.injEq, true_and]
  · rw [failed, List.filterMap_cons_none none, List.countP_cons_of_pos (by simp [none])]
    simp only [Reading.after, List.nil_append, List.singleton_append, List.length_cons,
      Nat.add_right_cancel_iff]

/-- A segment on its own is independent. -/
theorem independent_singleton (segment : Segment) : Independent [segment] := by
  have split : joined [segment] = segment.tokens := List.append_nil _
  rw [Independent, split]
  rcases segment.alone_cases with ⟨patch, found, read⟩ | ⟨error, none, failed⟩
  · rw [read, List.filterMap_cons_some found, List.countP_cons_of_neg (by simp [found])]
    exact ⟨rfl, rfl⟩
  · rw [failed, List.filterMap_cons_none none, List.countP_cons_of_pos (by simp [none])]
    exact ⟨rfl, rfl⟩

/-- Segments are independent exactly when none but the last breaks off. -/
theorem independent_iff (segments : List Segment) :
    Independent segments ↔ ∀ segment ∈ segments.dropLast, segment.breaksOff = false := by
  induction segments with
  | nil =>
    constructor
    · intro _ segment inside
      cases inside
    · intro _
      have ended : Reading.ofTokens KeywordPatch.grammar .resume (joined []) = ⟨[], []⟩ :=
        Reading.ofCursor_end rfl
      rw [Independent, ended]
      exact ⟨rfl, rfl⟩
  | cons segment segments ih =>
    cases segments with
    | nil =>
      constructor
      · intro _ other inside
        cases inside
      · intro _
        exact independent_singleton segment
    | cons next segments =>
      rw [List.dropLast_cons_of_ne_nil (List.cons_ne_nil _ _), List.forall_mem_cons]
      cases cut : segment.breaksOff with
      | false =>
        rw [independent_cons_of_whole cut, ih]
        constructor
        · intro others
          exact ⟨rfl, others⟩
        · rintro ⟨_, others⟩
          exact others
      | true =>
        constructor
        · intro independent
          -- The segment and those behind it leave fewer statements and faults than they are.
          have total := independent.count
          have more : joined (next :: segments) ≠ [] :=
            List.append_ne_nil_of_left_ne_nil next.tokens_ne_nil _
          have fewer := statements_add_faults_of_breaksOff cut (flat_joined _) more
          have split : joined (segment :: next :: segments) =
            segment.tokens ++ joined (next :: segments) := List.flatMap_cons
          rw [split, List.length_cons] at total
          rw [semicolons_joined] at fewer
          omega
        · rintro ⟨wrong, _⟩
          cases wrong

/-- A segment that gives a keyword its new editor ID. -/
def complete : Segment where
  body := [⟨"FilterByEditorID", 0, ⟨1, 1⟩⟩, ⟨"(", 16, ⟨1, 17⟩⟩, ⟨"\"X\"", 17, ⟨1, 18⟩⟩,
    ⟨")", 20, ⟨1, 21⟩⟩, ⟨".", 21, ⟨1, 22⟩⟩, ⟨"EditorID", 22, ⟨1, 23⟩⟩, ⟨"=", 30, ⟨1, 31⟩⟩,
    ⟨"\"Y\"", 31, ⟨1, 32⟩⟩]
  stop := ⟨";", 34, ⟨1, 35⟩⟩
  plain := by decide
  stops := rfl

/-- A segment that breaks off behind its first word. -/
def broken : Segment where
  body := [⟨"FilterByEditorID", 0, ⟨1, 1⟩⟩]
  stop := ⟨";", 16, ⟨1, 17⟩⟩
  plain := by decide
  stops := rfl

/-- The complete segment is read as its patch, without a fault. -/
theorem ofTokens_complete :
    Reading.ofTokens KeywordPatch.grammar .resume complete.tokens =
      ⟨[.expression ⟨.editorId "X", "Y"⟩], []⟩ := by
  have ran : KeywordPatch.read.run complete.start.look =
    .read ⟨.editorId "X", "Y"⟩ ⟨[], ⟨1, 35⟩⟩ := by rfl
  exact ofTokens_of_read ran

/-- The semicolon of a statement that breaks off is taken for its parenthesis, and the statement
behind it is skipped. -/
theorem broken_costs_complete :
    (∀ token ∈ joined [broken, complete], token.text ≠ "") ∧ ¬Independent [broken, complete] := by
  refine ⟨by decide, ?_⟩
  intro independent
  have total := independent.count
  have fewer : (Reading.ofTokens KeywordPatch.grammar .resume
        (joined [broken, complete])).statements.length +
      (Reading.ofTokens KeywordPatch.grammar .resume
        (joined [broken, complete])).faults.length = 1 := by decide +kernel
  rw [fewer] at total
  exact absurd total (by decide)

end Segment

end FormPatch
