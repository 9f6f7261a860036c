import FormPatch.Proofs.Syntax.Success

/-!
# Texts that go on

A reader sees its text through the next word only. What it does before it has taken the whole
text is therefore the same when the text goes on: either the run on the longer text is the run on
the shorter one with more tokens left, or both runs have taken the whole shorter text. A reader
with this property streams.

Readers whose last step is to take a token say more: a value that they answer stands, whatever
the text goes on with.
-/

namespace FormPatch.Syntax

namespace Cursor

/-- The cursor in a text that goes on. -/
def extend (cursor : Cursor) (later : List Token) : Cursor :=
  ⟨cursor.rest ++ later, cursor.shown⟩

/-- An extended cursor has the later tokens behind its own. -/
@[simp] theorem rest_extend (cursor : Cursor) (later : List Token) :
    (cursor.extend later).rest = cursor.rest ++ later :=
  rfl

/-- Extending by nothing changes nothing. -/
theorem extend_nil (cursor : Cursor) : cursor.extend [] = cursor := by
  rw [extend, List.append_nil]

/-- Where a token is left, the next word is the same. -/
theorem word_extend {cursor : Cursor} (more : cursor.rest ≠ []) (later : List Token) :
    (cursor.extend later).word = cursor.word := by
  obtain ⟨rest, shown⟩ := cursor
  cases rest with
  | nil => exact absurd rfl more
  | cons token rest => rfl

/-- Where a token is left, looking at it is the same. -/
theorem look_extend {cursor : Cursor} (more : cursor.rest ≠ []) (later : List Token) :
    (cursor.extend later).look = cursor.look.extend later := by
  obtain ⟨rest, shown⟩ := cursor
  cases rest with
  | nil => exact absurd rfl more
  | cons token rest => rfl

/-- Where a token is left, taking it is the same. -/
theorem take_extend {cursor : Cursor} (more : cursor.rest ≠ []) (later : List Token) :
    (cursor.extend later).take = cursor.take.extend later := by
  obtain ⟨rest, shown⟩ := cursor
  cases rest with
  | nil => exact absurd rfl more
  | cons token rest => rfl

/-- A text with a word that is not empty has a token left. -/
theorem rest_ne_nil_of_word {cursor : Cursor} {mark : String} (named : mark ≠ "")
    (found : cursor.word = mark) : cursor.rest ≠ [] := by
  intro ended
  exact named (by rw [← found, word, ended])

end Cursor

namespace Outcome

variable {α β : Type}

/-- The outcome in a text that goes on. -/
def extend (later : List Token) : Outcome α → Outcome α
  | read value cursor => read value (cursor.extend later)
  | failed error cursor => failed error (cursor.extend later)

/-- Changing the value and going on do not meet. -/
theorem map_extend (change : α → β) (outcome : Outcome α) (later : List Token) :
    (outcome.extend later).map change = (outcome.map change).extend later := by
  cases outcome <;> rfl

end Outcome

namespace Reader

variable {α β : Type}

/-- A reader streams from a cursor on when its run is the same in a text that goes on, unless it
takes the whole text. -/
def StreamsAt (reader : Reader α) (cursor : Cursor) : Prop :=
  ∀ later, reader.run (cursor.extend later) = (reader.run cursor).extend later ∨
    (reader.run cursor).cursor.rest = [] ∧
      (reader.run (cursor.extend later)).cursor.rest <:+ later

/-- A reader streams when it does so from every cursor on. -/
def Streams (reader : Reader α) : Prop := ∀ cursor, reader.StreamsAt cursor

/-- A value stands before a text when the reader answers it there too. -/
def StandsBefore (later : List Token) (reader : Reader α) : Prop :=
  ∀ cursor value after, reader.run cursor = .read value after →
    reader.run (cursor.extend later) = .read value (after.extend later)

/-- At the end of a text every reader streams. -/
theorem streamsAt_end (reader : Reader α) {cursor : Cursor} (ended : cursor.rest = []) :
    reader.StreamsAt cursor := by
  intro later
  right
  constructor
  · simpa [ended] using reader.suffix cursor
  · simpa [ended] using reader.suffix (cursor.extend later)

/-- A run that leaves a token is the same in a text that goes on. -/
theorem StreamsAt.run_extend {reader : Reader α} {cursor : Cursor}
    (streams : reader.StreamsAt cursor) (more : (reader.run cursor).cursor.rest ≠ [])
    (later : List Token) : reader.run (cursor.extend later) = (reader.run cursor).extend later := by
  rcases streams later with same | ⟨ended, _⟩
  · exact same
  · exact absurd ended more

/-- A reader behind another one leaves no more than that one. -/
theorem bind_suffix (reader : Reader α) (next : α → Reader β) (cursor : Cursor) :
    ((reader >>= next).run cursor).cursor.rest <:+ (reader.run cursor).cursor.rest := by
  rw [run_bind]
  cases reader.run cursor with
  | read value after => exact (next value).suffix after
  | failed error after => exact List.suffix_rfl

/-- Two readers in a row stream when the second one streams from where the first one stops. -/
theorem StreamsAt.bind {reader : Reader α} {next : α → Reader β} {cursor : Cursor}
    (first : reader.StreamsAt cursor)
    (second : ∀ value after, reader.run cursor = .read value after →
      (next value).StreamsAt after) : (reader >>= next).StreamsAt cursor := by
  intro later
  rcases first later with same | ⟨ended, behind⟩
  · rw [run_bind, run_bind, same]
    cases ran : reader.run cursor with
    | read value after => exact second value after ran later
    | failed error after => exact .inl rfl
  · -- Both runs have come past the shorter text; what follows cannot go back.
    right
    constructor
    · have left := bind_suffix reader next cursor
      rw [ended] at left
      exact List.suffix_nil.1 left
    · exact (bind_suffix reader next (cursor.extend later)).trans behind

/-- Two streaming readers in a row stream. -/
theorem Streams.bind {reader : Reader α} {next : α → Reader β} (first : reader.Streams)
    (second : ∀ value, (next value).Streams) : (reader >>= next).Streams :=
  fun cursor => (first cursor).bind fun value after _ => second value after

/-- An answer at once streams. -/
theorem streams_pure (value : α) : (pure value : Reader α).Streams := fun _ _ => .inl rfl

/-- A failure streams. -/
theorem streams_fail (fault : Fault) : (fail fault : Reader α).Streams := fun _ _ => .inl rfl

/-- A required condition streams. -/
theorem streams_require (condition : Bool) (fault : Fault) : (require condition fault).Streams := by
  cases condition with
  | false => exact streams_fail fault
  | true => exact streams_pure ()

/-- Taking the next word streams. -/
theorem streams_next : next.Streams := by
  intro cursor
  by_cases ended : cursor.rest = []
  · exact streamsAt_end next ended
  · intro later
    left
    simp only [next, Outcome.extend, Cursor.word_extend ended, Cursor.take_extend ended]

/-- Looking at the next word streams. -/
theorem streams_peek : peek.Streams := by
  intro cursor
  by_cases ended : cursor.rest = []
  · exact streamsAt_end peek ended
  · intro later
    left
    simp only [peek, Outcome.extend, Cursor.word_extend ended, Cursor.look_extend ended]

/-- Expecting a word streams. -/
theorem streams_expect (mark : String) : (expect mark).Streams := by
  refine streams_next.bind fun found => ?_
  split
  · exact streams_pure ()
  · exact streams_fail _

/-- Accepting a word streams. -/
theorem streams_accept (mark : String) : (accept mark).Streams := by
  refine streams_peek.bind fun found => ?_
  split
  · exact streams_next.bind fun _ => streams_pure true
  · exact streams_pure false

/-- Reading a string streams. -/
theorem streams_string : string.Streams := by
  refine streams_next.bind fun found => ?_
  cases Token.unquote? found with
  | none => exact streams_fail _
  | some text => exact streams_pure text

/-- An answer at once stands before every text. -/
theorem standsBefore_pure (later : List Token) (value : α) :
    (pure value : Reader α).StandsBefore later := by
  intro cursor found after ran
  obtain ⟨rfl, rfl⟩ := pure_eq_read.1 ran
  rfl

/-- A fixed word that was met is met in a text that goes on. -/
theorem standsBefore_expect (later : List Token) {mark : String} (named : mark ≠ "") :
    (expect mark).StandsBefore later := by
  intro cursor value after ran
  obtain ⟨found, rfl⟩ := expect_eq_read.1 ran
  have more := Cursor.rest_ne_nil_of_word named found
  apply expect_eq_read.2
  exact ⟨by rw [Cursor.word_extend more, found], Cursor.take_extend more later⟩

/-- Values that stand one after the other stand together. -/
theorem StandsBefore.bind {later : List Token} {reader : Reader α} {next : α → Reader β}
    (first : reader.StandsBefore later) (second : ∀ value, (next value).StandsBefore later) :
    (reader >>= next).StandsBefore later := by
  intro cursor value after ran
  obtain ⟨found, middle, head, tail⟩ := bind_eq_read.1 ran
  exact bind_eq_read.2 ⟨found, middle.extend later, first cursor found middle head,
    second found middle value after tail⟩

/-- What a streaming reader answers stands when the value of the reader behind it stands and has
cost a token, for then the first reader has not come to the end. -/
theorem StandsBefore.after {later : List Token} {reader : Reader α} {next : α → Reader β}
    (first : reader.Streams) (second : ∀ value, (next value).StandsBefore later)
    (advances : ∀ value, (next value).Advances) : (reader >>= next).StandsBefore later := by
  intro cursor value after ran
  obtain ⟨found, middle, head, tail⟩ := bind_eq_read.1 ran
  have more : (reader.run cursor).cursor.rest ≠ [] := by
    intro ended
    have shorter := advances found middle value after tail
    rw [head, Outcome.cursor_read] at ended
    simp [ended] at shorter
  have same := (first cursor).run_extend more later
  rw [head] at same
  exact bind_eq_read.2 ⟨found, middle.extend later, same, second found middle value after tail⟩

/-- A run behind a token that is taken leaves fewer tokens. -/
theorem length_lt_of_take {reader : Reader α} {cursor : Cursor} {outcome : Outcome α}
    (more : cursor.rest ≠ []) (ran : reader.run cursor.take = outcome) :
    outcome.cursor.rest.length < cursor.rest.length := by
  have taken := Cursor.length_take_lt more
  have kept := reader.length_le cursor.take
  rw [ran] at kept
  exact Nat.lt_of_le_of_lt kept taken

end Reader

namespace Passage

variable {α β : Type}

/-- The passage in a text that goes on. -/
def extend (later : List Token) (passage : Passage α) : Passage α :=
  ⟨passage.faults, passage.outcome.extend later⟩

end Passage

namespace Tolerant

variable {α β : Type}

/-- A tolerant reader streams from a cursor on when its run is the same in a text that goes on,
unless it takes the whole text. -/
def StreamsAt (reader : Tolerant α) (cursor : Cursor) : Prop :=
  ∀ later, reader.run (cursor.extend later) = (reader.run cursor).extend later ∨
    (reader.run cursor).cursor.rest = [] ∧
      (reader.run (cursor.extend later)).cursor.rest <:+ later

/-- A tolerant reader streams when it does so from every cursor on. -/
def Streams (reader : Tolerant α) : Prop := ∀ cursor, reader.StreamsAt cursor

/-- A value stands before a text when the reader answers it there too, over the same faults. -/
def StandsBefore (later : List Token) (reader : Tolerant α) : Prop :=
  ∀ cursor faults value after, reader.run cursor = ⟨faults, .read value after⟩ →
    reader.run (cursor.extend later) = ⟨faults, .read value (after.extend later)⟩

/-- A reader that answers nothing at the end of a text. -/
def NeedsToken (reader : Tolerant α) : Prop :=
  ∀ cursor faults value after, reader.run cursor = ⟨faults, .read value after⟩ → cursor.rest ≠ []

/-- Two readers in a row succeed when the first one does and the second one does behind it, over
the faults of both. -/
theorem bind_eq_read {reader : Tolerant α} {next : α → Tolerant β} {cursor after : Cursor}
    {faults : List Located} {value : β} :
    (reader >>= next).run cursor = ⟨faults, .read value after⟩ ↔
      ∃ ahead first middle behind, reader.run cursor = ⟨ahead, .read first middle⟩ ∧
        (next first).run middle = ⟨behind, .read value after⟩ ∧ faults = ahead ++ behind := by
  rw [run_bind]
  constructor
  · intro ran
    split at ran
    · next ahead first middle head =>
      cases tail : (next first).run middle with
      | mk behind outcome =>
        rw [tail, Passage.behind, Passage.mk.injEq] at ran
        obtain ⟨joined, rfl⟩ := ran
        exact ⟨ahead, first, middle, behind, head, tail, joined.symm⟩
    · simp at ran
  · rintro ⟨ahead, first, middle, behind, head, tail, rfl⟩
    simp only [head, tail, Passage.behind]

/-- What answers a value over no fault is a reader that answers it. -/
theorem ofReader_eq_read {reader : Reader α} {cursor after : Cursor} {faults : List Located}
    {value : α} :
    (ofReader reader).run cursor = ⟨faults, .read value after⟩ ↔
      reader.run cursor = .read value after ∧ faults = [] := by
  simp only [ofReader, Passage.mk.injEq]
  constructor
  · rintro ⟨rfl, ran⟩
    exact ⟨ran, rfl⟩
  · rintro ⟨ran, rfl⟩
    exact ⟨rfl, ran⟩

/-- A run of a reader that progresses leaves fewer tokens. -/
theorem Progresses.length_lt {reader : Tolerant α} (progresses : reader.Progresses)
    {cursor : Cursor} {faults : List Located} {outcome : Outcome α} (more : cursor.rest ≠ [])
    (ran : reader.run cursor = ⟨faults, outcome⟩) :
    outcome.cursor.rest.length < cursor.rest.length := by
  have fewer := progresses cursor more
  rwa [ran, Passage.cursor_mk] at fewer

/-- A run behind a token that is taken leaves fewer tokens. -/
theorem length_lt_of_take {reader : Tolerant α} {cursor : Cursor} {faults : List Located}
    {outcome : Outcome α} (more : cursor.rest ≠ [])
    (ran : reader.run cursor.take = ⟨faults, outcome⟩) :
    outcome.cursor.rest.length < cursor.rest.length := by
  have taken := Cursor.length_take_lt more
  have kept := reader.length_le cursor.take
  rw [ran, Passage.cursor_mk] at kept
  exact Nat.lt_of_le_of_lt kept taken

/-- At the end of a text every reader streams. -/
theorem streamsAt_end (reader : Tolerant α) {cursor : Cursor} (ended : cursor.rest = []) :
    reader.StreamsAt cursor := by
  intro later
  right
  constructor
  · simpa [ended] using reader.suffix cursor
  · simpa [ended] using reader.suffix (cursor.extend later)

/-- A run that leaves a token is the same in a text that goes on. -/
theorem StreamsAt.run_extend {reader : Tolerant α} {cursor : Cursor}
    (streams : reader.StreamsAt cursor) (more : (reader.run cursor).cursor.rest ≠ [])
    (later : List Token) : reader.run (cursor.extend later) = (reader.run cursor).extend later := by
  rcases streams later with same | ⟨ended, _⟩
  · exact same
  · exact absurd ended more

/-- A reader behind another one leaves no more than that one. -/
theorem bind_suffix (reader : Tolerant α) (next : α → Tolerant β) (cursor : Cursor) :
    ((reader >>= next).run cursor).cursor.rest <:+ (reader.run cursor).cursor.rest := by
  rw [run_bind]
  split
  · next faults value after ran =>
    rw [ran, Passage.cursor_behind]
    exact (next value).suffix after
  · next faults error after ran =>
    rw [ran]
    exact List.suffix_rfl

/-- Two readers in a row stream when the second one streams from where the first one stops. -/
theorem StreamsAt.bind {reader : Tolerant α} {next : α → Tolerant β} {cursor : Cursor}
    (first : reader.StreamsAt cursor)
    (second : ∀ faults value after, reader.run cursor = ⟨faults, .read value after⟩ →
      (next value).StreamsAt after) : (reader >>= next).StreamsAt cursor := by
  intro later
  rcases first later with same | ⟨ended, behind⟩
  · rw [run_bind, run_bind, same]
    cases ran : reader.run cursor with
    | mk faults outcome =>
      cases outcome with
      | failed error after => exact .inl rfl
      | read value after =>
        rcases second faults value after ran later with same | ⟨ended, behind⟩
        · left
          simp only [Passage.extend, Outcome.extend, same]
          rfl
        · exact .inr ⟨ended, behind⟩
  · -- Both runs have come past the shorter text; what follows cannot go back.
    right
    constructor
    · have left := bind_suffix reader next cursor
      rw [ended] at left
      exact List.suffix_nil.1 left
    · exact (bind_suffix reader next (cursor.extend later)).trans behind

/-- Two streaming readers in a row stream. -/
theorem Streams.bind {reader : Tolerant α} {next : α → Tolerant β} (first : reader.Streams)
    (second : ∀ value, (next value).Streams) : (reader >>= next).Streams :=
  fun cursor => (first cursor).bind fun _ value after _ => second value after

/-- A tolerant reader streams when the strict one does. -/
theorem streams_ofReader {reader : Reader α} (streams : reader.Streams) :
    (ofReader reader).Streams := by
  intro cursor later
  rcases streams cursor later with same | past
  · left
    simp only [ofReader, same]
    rfl
  · exact .inr past

/-- An answer at once over no faults streams. -/
theorem streams_pure (value : α) : (pure value : Tolerant α).Streams :=
  streams_ofReader (Reader.streams_pure value)

/-- A tolerant reader stands before a text when the strict one does. -/
theorem standsBefore_ofReader {later : List Token} {reader : Reader α}
    (stands : reader.StandsBefore later) : (ofReader reader).StandsBefore later := by
  intro cursor faults value after ran
  obtain ⟨read, none⟩ := ofReader_eq_read.1 ran
  exact ofReader_eq_read.2 ⟨stands cursor value after read, none⟩

/-- An answer at once over no faults stands before every text. -/
theorem standsBefore_pure (later : List Token) (value : α) :
    (pure value : Tolerant α).StandsBefore later :=
  standsBefore_ofReader (Reader.standsBefore_pure later value)

/-- Values that stand one after the other stand together. -/
theorem StandsBefore.bind {later : List Token} {reader : Tolerant α} {next : α → Tolerant β}
    (first : reader.StandsBefore later) (second : ∀ value, (next value).StandsBefore later) :
    (reader >>= next).StandsBefore later := by
  intro cursor faults value after ran
  obtain ⟨ahead, found, middle, behind, head, tail, joined⟩ := bind_eq_read.1 ran
  exact bind_eq_read.2 ⟨ahead, found, middle.extend later, behind,
    first cursor ahead found middle head, second found middle behind value after tail, joined⟩

/-- What a streaming reader answers stands when the value of the reader behind it stands and
needs a token, for then the first reader has not come to the end. -/
theorem StandsBefore.after {later : List Token} {reader : Tolerant α} {next : α → Tolerant β}
    (first : reader.Streams) (second : ∀ value, (next value).StandsBefore later)
    (needs : ∀ value, (next value).NeedsToken) : (reader >>= next).StandsBefore later := by
  intro cursor faults value after ran
  obtain ⟨ahead, found, middle, behind, head, tail, joined⟩ := bind_eq_read.1 ran
  have more : (reader.run cursor).cursor.rest ≠ [] := by
    rw [head]
    exact needs found middle behind value after tail
  have same := (first cursor).run_extend more later
  rw [head] at same
  exact bind_eq_read.2 ⟨ahead, found, middle.extend later, behind, same,
    second found middle behind value after tail, joined⟩

/-- A tolerant reader needs a token when the strict one advances. -/
theorem needsToken_ofReader {reader : Reader α} (advances : reader.Advances) :
    (ofReader reader).NeedsToken := by
  intro cursor faults value after ran ended
  obtain ⟨ran, _⟩ := ofReader_eq_read.1 ran
  have shorter := advances cursor value after ran
  simp [ended] at shorter

/-- What the first reader needs, the whole needs. -/
theorem NeedsToken.bind {reader : Tolerant α} (needs : reader.NeedsToken)
    (next : α → Tolerant β) : (reader >>= next).NeedsToken := by
  intro cursor faults value after ran
  obtain ⟨ahead, found, middle, _, head, _, _⟩ := bind_eq_read.1 ran
  exact needs cursor ahead found middle head

/-- A value holds before a text when the reader answers it there too, over the same faults. The
place shown may be that of the next word. -/
def HoldsBefore (later : List Token) (reader : Tolerant α) : Prop :=
  ∀ cursor faults value after, reader.run cursor = ⟨faults, .read value after⟩ →
    ∃ shown, reader.run (cursor.extend later) = ⟨faults, .read value ⟨after.rest ++ later, shown⟩⟩

/-- A value that holds behind one that stands holds. -/
theorem HoldsBefore.after {later : List Token} {reader : Tolerant α} {next : α → Tolerant β}
    (first : reader.StandsBefore later) (second : ∀ value, (next value).HoldsBefore later) :
    (reader >>= next).HoldsBefore later := by
  intro cursor faults value after ran
  obtain ⟨ahead, found, middle, behind, head, tail, joined⟩ := bind_eq_read.1 ran
  obtain ⟨shown, tail'⟩ := second found middle behind value after tail
  exact ⟨shown, bind_eq_read.2 ⟨ahead, found, middle.extend later, behind,
    first cursor ahead found middle head, tail', joined⟩⟩

/-- Changing a value that holds leaves one that holds. -/
theorem HoldsBefore.map {later : List Token} {reader : Tolerant α}
    (holds : reader.HoldsBefore later) (change : α → β) :
    (reader >>= fun value => pure (change value)).HoldsBefore later := by
  intro cursor faults value after ran
  obtain ⟨ahead, found, middle, behind, head, tail, joined⟩ := bind_eq_read.1 ran
  obtain ⟨same, rfl⟩ := ofReader_eq_read.1 tail
  obtain ⟨rfl, rfl⟩ := Reader.pure_eq_read.1 same
  obtain ⟨shown, head'⟩ := holds cursor ahead found middle head
  exact ⟨shown, bind_eq_read.2 ⟨ahead, found, _, [], head', rfl, joined⟩⟩

end Tolerant

end FormPatch.Syntax
