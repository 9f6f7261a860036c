import FormPatch.Proofs.Syntax.Written

/-!
# Readers and the phrases that they recognize

A phrase is a run of words that stands for a value. A reader recognizes phrases when it answers a
value exactly where a phrase for it stands, and takes that phrase and no more. A reader may look one
word too far, so what is left may be bound not to start with certain words. What a composed reader
recognizes is put together from what its parts recognize.
-/

namespace FormPatch.Syntax

/-- Which words stand for which values. -/
abbrev Phrases (α : Type) := List String → α → Prop

/-- What may be left behind a phrase for a value: words that do not start with a mark. -/
def NotAt {α : Type} (mark : String) (_ : α) (left : List String) : Prop := left.head? ≠ some mark

/-- What may be left behind a phrase for a value: any words. -/
def Anywhere {α : Type} (_ : α) (_ : List String) : Prop := True

namespace Phrases

variable {α β : Type}

/-- One phrase behind another one. -/
def bind (first : Phrases α) (next : α → Phrases β) : Phrases β := fun words value =>
  ∃ found front behind, words = front ++ behind ∧ first front found ∧ next found behind value

/-- A fixed word in front of a phrase. -/
def behind (mark : String) (phrases : Phrases α) : Phrases α := fun words value =>
  ∃ others, words = mark :: others ∧ phrases others value

/-- Phrases with a mark in front of each one. -/
inductive EachBehind (mark : String) (phrases : Phrases α) : Phrases (List α)
  /-- No phrase. -/
  | nil : EachBehind mark phrases [] []
  /-- A mark, a phrase and others behind it. -/
  | cons {front others : List String} {value : α} {values : List α} (first : phrases front value)
      (rest : EachBehind mark phrases others values) :
      EachBehind mark phrases (mark :: (front ++ others)) (value :: values)

/-- Phrases with a mark between any two of them, at least one. -/
def separated (mark : String) (phrases : Phrases α) : Phrases (List α) := fun words values =>
  ∃ first others front behind, words = front ++ behind ∧ values = first :: others ∧
    phrases front first ∧ EachBehind mark phrases behind others

/-- Phrases with a mark in front of each one, of which one on the right is the last. -/
inductive Branches (mark : String) (phrases : Phrases (α ⊕ β)) : Phrases (List α × Option β)
  /-- No phrase. -/
  | nothing : Branches mark phrases [] ([], none)
  /-- A mark and a last phrase. -/
  | last {front : List String} {value : β} (only : phrases front (.inr value)) :
      Branches mark phrases (mark :: front) ([], some value)
  /-- A mark, a phrase and others behind it. -/
  | branch {front others : List String} {value : α} {values : List α} {last : Option β}
      (first : phrases front (.inl value)) (rest : Branches mark phrases others (values, last)) :
      Branches mark phrases (mark :: (front ++ others)) (value :: values, last)

/-- A fixed word and a phrase behind it. -/
theorem bind_word_iff {mark : String} {phrases : Phrases β} {words : List String} {value : β} :
    Phrases.bind (fun words (_ : Unit) => words = [mark]) (fun _ => phrases) words value ↔
      phrases.behind mark words value := by
  constructor
  · rintro ⟨_, _, others, rfl, rfl, spelled⟩
    exact ⟨others, rfl, spelled⟩
  · rintro ⟨others, rfl, spelled⟩
    exact ⟨(), [mark], others, rfl, rfl, spelled⟩

/-- A phrase and nothing behind it, with another value. -/
theorem bind_empty_iff {phrases : Phrases α} {change : α → β} {words : List String} {value : β} :
    phrases.bind (fun found words value => words = [] ∧ value = change found) words value ↔
      ∃ found, value = change found ∧ phrases words found := by
  constructor
  · rintro ⟨found, front, _, rfl, spelled, rfl, rfl⟩
    exact ⟨found, rfl, by rwa [List.append_nil]⟩
  · rintro ⟨found, rfl, spelled⟩
    exact ⟨found, words, [], (List.append_nil words).symm, spelled, rfl, rfl⟩

/-- A fixed word that stands or is missing, and a phrase behind it. -/
theorem bind_choice_iff {mark : String} {here apart : Phrases β} {words : List String}
    {value : β} :
    Phrases.bind (fun words (found : Bool) => words = if found then [mark] else [])
        (fun found => if found then here else apart) words value ↔
      here.behind mark words value ∨ apart words value := by
  constructor
  · rintro ⟨found, _, others, rfl, rfl, spelled⟩
    cases found with
    | true => exact .inl ⟨others, rfl, spelled⟩
    | false => exact .inr spelled
  · rintro (⟨others, rfl, spelled⟩ | spelled)
    · exact ⟨true, [mark], others, rfl, rfl, spelled⟩
    · exact ⟨false, [], words, rfl, rfl, spelled⟩

/-- Whether, where some words stand, phrases are what is answered before what may be left: a value
is answered and some words are left exactly where a phrase for the value stands in front of them. -/
def MatchesAt (phrases : Phrases α) (words : List String) (before : α → List String → Prop)
    (answers : α → Cursor → Prop) : Prop :=
  ∀ (value : α) (left : List String), before value left →
    ((∃ after, answers value after ∧ after.words = left) ↔
      ∃ front, words = front ++ left ∧ phrases front value)

/-- Phrases that stand there may be described in another way. -/
theorem MatchesAt.congr {phrases same : Phrases α} {words : List String}
    {before : α → List String → Prop} {answers : α → Cursor → Prop}
    (matched : phrases.MatchesAt words before answers)
    (alike : ∀ front value left, words = front ++ left → before value left →
      (phrases front value ↔ same front value)) :
    same.MatchesAt words before answers := by
  intro value left allowed
  rw [matched value left allowed]
  constructor
  · rintro ⟨front, stands, spelled⟩
    exact ⟨front, stands, (alike front value left stands allowed).1 spelled⟩
  · rintro ⟨front, stands, spelled⟩
    exact ⟨front, stands, (alike front value left stands allowed).2 spelled⟩

/-- A mark in front of the words stands in front of the phrases. -/
theorem MatchesAt.behind {phrases : Phrases α} {words : List String}
    {before : α → List String → Prop} {answers : α → Cursor → Prop}
    (matched : phrases.MatchesAt words before answers) (mark : String) :
    (phrases.behind mark).MatchesAt (mark :: words) before answers := by
  intro value left allowed
  rw [matched value left allowed]
  constructor
  · rintro ⟨front, rfl, spelled⟩
    exact ⟨mark :: front, rfl, front, rfl, spelled⟩
  · rintro ⟨_, stands, front, rfl, spelled⟩
    exact ⟨front, (List.cons.inj stands).2, spelled⟩

/-- What is answered in a row is a phrase behind another one, when the second phrase and what is
left behind it may be left behind the first one. -/
theorem MatchesAt.bind {phrases : Phrases α} {others : α → Phrases β} {words : List String}
    {ahead : α → List String → Prop} {before : β → List String → Prop}
    {front : α → Cursor → Prop} {behind : α → Cursor → β → Cursor → Prop}
    {row : β → Cursor → Prop}
    (split : ∀ value after, row value after ↔
      ∃ found middle, front found middle ∧ behind found middle value after)
    (first : phrases.MatchesAt words ahead front)
    (second : ∀ found middle, front found middle →
      (others found).MatchesAt middle.words before (behind found middle))
    (meets : ∀ found last value left, others found last value → before value left →
      ahead found (last ++ left)) :
    (phrases.bind others).MatchesAt words before row := by
  intro value left allowed
  constructor
  · rintro ⟨after, ran, rfl⟩
    obtain ⟨found, middle, head, tail⟩ := (split _ _).1 ran
    obtain ⟨last, stands, spelled⟩ := (second found middle head value _ allowed).1
      ⟨after, tail, rfl⟩
    have fits := meets found last value _ spelled allowed
    rw [← stands] at fits
    obtain ⟨opening, stands', spelled'⟩ := (first found _ fits).1 ⟨middle, head, rfl⟩
    refine ⟨opening ++ last, ?_, found, opening, last, rfl, spelled', spelled⟩
    rw [stands', stands, List.append_assoc]
  · rintro ⟨_, stands, found, opening, last, rfl, spelled, spelled'⟩
    rw [List.append_assoc] at stands
    have fits := meets found last value left spelled' allowed
    obtain ⟨middle, head, stands'⟩ := (first found _ fits).2 ⟨opening, stands, spelled⟩
    obtain ⟨after, tail, ended⟩ := (second found middle head value left allowed).2
      ⟨last, stands', spelled'⟩
    exact ⟨after, (split _ _).2 ⟨found, middle, head, tail⟩, ended⟩

end Phrases

namespace Cursor

/-- The next word stands in front of what is left behind it. -/
theorem words_of_word {cursor : Cursor} {mark : String} (named : mark ≠ "")
    (here : cursor.word = mark) : cursor.words = mark :: cursor.take.words := by
  obtain ⟨rest, shown⟩ := cursor
  cases rest with
  | nil => exact absurd here.symm named
  | cons token rest => exact congrArg (· :: rest.map Token.text) here

end Cursor

namespace Reader

variable {α β : Type}

/-- A reader recognizes phrases before what may be left: it answers a value and leaves some words
exactly where a phrase for the value stands in front of those words. -/
def Recognizes (reader : Reader α) (before : α → List String → Prop) (phrases : Phrases α) :
    Prop :=
  ∀ (cursor : Cursor) (value : α) (left : List String), before value left →
    ((∃ after, reader.run cursor = .read value after ∧ after.words = left) ↔
      ∃ front, cursor.words = front ++ left ∧ phrases front value)

variable {ahead : α → List String → Prop} {before : β → List String → Prop} {phrases : Phrases α}
  {others : α → Phrases β}

/-- Phrases may be described in another way. -/
theorem Recognizes.congr {reader : Reader α} {same : Phrases α}
    (recognizes : reader.Recognizes ahead phrases)
    (alike : ∀ words value, phrases words value ↔ same words value) :
    reader.Recognizes ahead same :=
  fun cursor => Phrases.MatchesAt.congr (recognizes cursor) fun words value _ _ _ =>
    alike words value

/-- Less may be left behind a phrase. -/
theorem Recognizes.narrow {reader : Reader α} {narrow : α → List String → Prop}
    (recognizes : reader.Recognizes ahead phrases)
    (fits : ∀ value left, narrow value left → ahead value left) :
    reader.Recognizes narrow phrases :=
  fun cursor value left allowed => recognizes cursor value left (fits value left allowed)

/-- Readers in a row recognize a phrase behind another one, when the second phrase and what is left
behind it may be left behind the first one. -/
theorem Recognizes.bind {reader : Reader α} {next : α → Reader β}
    (first : reader.Recognizes ahead phrases)
    (second : ∀ found, (next found).Recognizes before (others found))
    (meets : ∀ found front value left, others found front value → before value left →
      ahead found (front ++ left)) :
    (reader >>= next).Recognizes before (phrases.bind others) :=
  fun cursor => Phrases.MatchesAt.bind (fun _ _ => bind_eq_read) (first cursor)
    (fun found middle _ => second found middle) meets

/-- Behind a phrase that may stand anywhere no condition is left. -/
theorem Recognizes.append {reader : Reader α} {next : α → Reader β}
    (first : reader.Recognizes Anywhere phrases)
    (second : ∀ found, (next found).Recognizes before (others found)) :
    (reader >>= next).Recognizes before (phrases.bind others) :=
  first.bind second fun _ _ _ _ _ _ => trivial

/-- A reader that answers at once recognizes the empty phrase. -/
theorem recognizes_pure (value : α) :
    (pure value : Reader α).Recognizes ahead fun words found => words = [] ∧ found = value := by
  intro cursor found left _
  simp only [pure_eq_read]
  constructor
  · rintro ⟨after, ⟨rfl, rfl⟩, rfl⟩
    exact ⟨[], rfl, rfl, rfl⟩
  · rintro ⟨_, stands, rfl, rfl⟩
    exact ⟨cursor, ⟨rfl, rfl⟩, stands⟩

/-- Changing the value changes the values that phrases stand for. -/
theorem Recognizes.map {reader : Reader α} (change : α → β)
    (first : reader.Recognizes ahead phrases)
    (meets : ∀ found left, before (change found) left → ahead found left) :
    (reader >>= fun found => pure (change found)).Recognizes before fun words value =>
      ∃ found, value = change found ∧ phrases words found := by
  refine (first.bind (fun found => recognizes_pure (change found)) ?_).congr
    fun _ _ => Phrases.bind_empty_iff
  rintro found _ _ left ⟨rfl, rfl⟩ allowed
  exact meets found left allowed

/-- A reader that answers nothing recognizes nothing. -/
theorem Refuses.recognizes {reader : Reader α} (refuses : reader.Refuses) :
    reader.Recognizes ahead fun _ _ => False := by
  intro cursor value left _
  constructor
  · rintro ⟨after, ran, _⟩
    exact absurd ran (refuses cursor value after)
  · rintro ⟨_, _, impossible⟩
    exact impossible.elim

/-- A condition in front of a reader. -/
theorem Recognizes.require {next : Reader β} {phrases : Phrases β} (condition : Bool)
    (fault : Fault) (rest : next.Recognizes before phrases) :
    (Reader.require condition fault >>= fun _ => next).Recognizes before
      fun words value => condition = true ∧ phrases words value := by
  cases condition with
  | false =>
    refine ((refuses_require rfl).bind _).recognizes.congr fun words value => ?_
    simp
  | true => exact rest.congr fun words value => by simp

/-- A word in front of a reader that answers nothing behind the missing word. -/
theorem recognizes_next {next : String → Reader β} {others : String → Phrases β}
    (missing : (next "").Refuses)
    (rest : ∀ word, (next word).Recognizes before (others word)) :
    (Reader.next >>= next).Recognizes before fun words value =>
      ∃ word behind, words = word :: behind ∧ others word behind value := by
  intro cursor value left allowed
  constructor
  · rintro ⟨after, ran, rfl⟩
    obtain ⟨word, middle, head, tail⟩ := bind_eq_read.1 ran
    obtain ⟨rfl, rfl⟩ := next_eq_read.1 head
    have named : cursor.word ≠ "" := by
      intro ended
      rw [ended] at tail
      exact missing _ _ _ tail
    obtain ⟨behind, stands, spelled⟩ := (rest _ _ value _ allowed).1 ⟨after, tail, rfl⟩
    refine ⟨cursor.word :: behind, ?_, cursor.word, behind, rfl, spelled⟩
    rw [Cursor.words_of_word named rfl, stands, List.cons_append]
  · rintro ⟨_, stands, word, behind, rfl, spelled⟩
    have here := Cursor.word_of_words stands
    have left' : cursor.take.words = behind ++ left := by rw [Cursor.words_take, stands]; rfl
    obtain ⟨after, ran, last⟩ := (rest word cursor.take value left allowed).2
      ⟨behind, left', spelled⟩
    exact ⟨after, bind_eq_read.2 ⟨word, cursor.take, next_eq_read.2 ⟨here, rfl⟩, ran⟩, last⟩

/-- A fixed word is recognized anywhere. -/
theorem recognizes_expect {mark : String} (named : mark ≠ "") :
    (expect mark).Recognizes Anywhere fun words _ => words = [mark] := by
  intro cursor value left _
  simp only [expect_eq_read]
  constructor
  · rintro ⟨_, ⟨here, rfl⟩, rfl⟩
    exact ⟨[mark], Cursor.words_of_word named here, rfl⟩
  · rintro ⟨_, stands, rfl⟩
    refine ⟨cursor.take, ⟨Cursor.word_of_words stands, rfl⟩, ?_⟩
    rw [Cursor.words_take, stands]
    rfl

/-- A fixed word in front of a reader. -/
theorem Recognizes.expect {next : Reader β} {phrases : Phrases β} {mark : String}
    (named : mark ≠ "") (rest : next.Recognizes before phrases) :
    (Reader.expect mark >>= fun _ => next).Recognizes before (phrases.behind mark) :=
  ((recognizes_expect named).append fun _ => rest).congr fun _ _ => Phrases.bind_word_iff

/-- A word is accepted where it stands, and where it does not stand nothing is taken. -/
theorem recognizes_accept {mark : String} (named : mark ≠ "") :
    (accept mark).Recognizes (fun found left => found = false → NotAt mark found left)
      fun words found => words = if found then [mark] else [] := by
  intro cursor found left allowed
  by_cases here : cursor.word = mark
  · have split := Cursor.words_of_word named here
    rw [run_accept_of_word here]
    constructor
    · rintro ⟨after, ran, rfl⟩
      obtain ⟨rfl, rfl⟩ := Outcome.read.inj ran
      exact ⟨[mark], split, rfl⟩
    · rintro ⟨_, stands, rfl⟩
      cases found with
      | true => exact ⟨_, rfl, (List.cons.inj (split.symm.trans stands)).2⟩
      | false =>
        refine absurd ?_ (allowed rfl)
        rw [← List.nil_append left, ← List.head?_cons, ← split, stands]
        rfl
  · rw [run_accept_of_ne here]
    constructor
    · rintro ⟨after, ran, rfl⟩
      obtain ⟨rfl, rfl⟩ := Outcome.read.inj ran
      exact ⟨[], (Cursor.words_look cursor).symm, rfl⟩
    · rintro ⟨_, stands, rfl⟩
      cases found with
      | true => exact absurd (Cursor.word_of_words stands) here
      | false => exact ⟨_, rfl, (Cursor.words_look cursor).trans stands⟩

/-- A choice by a fixed word, when no phrase of the other reader starts with it. -/
theorem Recognizes.choice {found missing : Reader β} {phrases others : Phrases β} {mark : String}
    (named : mark ≠ "") (here : found.Recognizes before phrases)
    (apart : missing.Recognizes before others)
    (starts : ∀ front value left, others front value → before value left →
      NotAt mark value (front ++ left)) :
    (accept mark >>= fun accepted => if accepted then found else missing).Recognizes before
      fun words value => phrases.behind mark words value ∨ others words value := by
  have rest (accepted : Bool) : (if accepted then found else missing).Recognizes before
      (if accepted then phrases else others) := by
    cases accepted with
    | true => exact here
    | false => exact apart
  refine ((recognizes_accept named).bind rest ?_).congr fun _ _ => Phrases.bind_choice_iff
  rintro accepted front value left spelled allowed rfl
  exact starts front value left spelled allowed

/-- Items behind a mark each are recognized where no further mark is left. -/
theorem recognizes_afterEach {mark : String} {named : mark ≠ ""} {item : Reader α}
    (items : item.Recognizes Anywhere phrases) :
    (afterEach mark named item).Recognizes (NotAt mark) (phrases.EachBehind mark) := by
  intro cursor
  induction measured : cursor.rest.length using Nat.strongRecOn generalizing cursor with
  | ind length ih =>
    by_cases here : cursor.word = mark
    · have split := Cursor.words_of_word named here
      have later (value : α) (middle : Cursor) (ran : item.run cursor.take = .read value middle) :
          Phrases.MatchesAt _ middle.words (NotAt mark) _ :=
        have shorter : middle.rest.length < length :=
          measured ▸ length_lt_of_take (Cursor.rest_ne_nil_of_word named here) ran
        .bind (fun _ _ => bind_eq_read) (ih _ shorter middle rfl)
          (fun values place _ => recognizes_pure (value :: values) place)
          (by rintro values _ _ left ⟨rfl, rfl⟩ other; exact other)
      have whole := Phrases.MatchesAt.bind (fun _ _ => bind_eq_read) (items cursor.take) later
        fun _ _ _ _ _ _ => trivial
      rw [run_afterEach_of_word here, split]
      refine (whole.behind mark).congr fun front values left stands other => ?_
      constructor
      · rintro ⟨_, rfl, value, words, _, rfl, first, others, behind, _, rfl, rest, rfl, rfl⟩
        simpa using Phrases.EachBehind.cons first rest
      · rintro (_ | ⟨first, rest⟩)
        · exact absurd (congrArg List.head? stands).symm other
        · exact ⟨_, rfl, _, _, _, rfl, first, _, _, [], by simp, rest, rfl, rfl⟩
    · have nothing : Phrases.MatchesAt _ cursor.look.words (NotAt mark) _ :=
        recognizes_pure ([] : List α) cursor.look
      rw [Cursor.words_look] at nothing
      rw [run_afterEach_of_ne here]
      refine nothing.congr fun front values left stands _ => ?_
      constructor
      · rintro ⟨rfl, rfl⟩
        exact .nil
      · rintro (_ | ⟨first, rest⟩)
        · exact ⟨rfl, rfl⟩
        · exact absurd (Cursor.word_of_words stands) here

end Reader

namespace Tolerant

variable {α β : Type}

/-- Two readers in a row answer a value over no fault when both do. -/
theorem bind_eq_clean {reader : Tolerant α} {next : α → Tolerant β} {cursor after : Cursor}
    {value : β} :
    (reader >>= next).run cursor = ⟨[], .read value after⟩ ↔
      ∃ found middle, reader.run cursor = ⟨[], .read found middle⟩ ∧
        (next found).run middle = ⟨[], .read value after⟩ := by
  rw [bind_eq_read]
  constructor
  · rintro ⟨faults, found, middle, later, head, tail, none⟩
    obtain ⟨rfl, rfl⟩ := List.append_eq_nil_iff.1 none.symm
    exact ⟨found, middle, head, tail⟩
  · rintro ⟨found, middle, head, tail⟩
    exact ⟨[], found, middle, [], head, tail, rfl⟩

/-- A tolerant reader recognizes phrases when it answers a value over no fault, and leaves some
words, exactly where a phrase for the value stands in front of those words. -/
def Recognizes (reader : Tolerant α) (before : α → List String → Prop) (phrases : Phrases α) :
    Prop :=
  ∀ (cursor : Cursor) (value : α) (left : List String), before value left →
    ((∃ after, reader.run cursor = ⟨[], .read value after⟩ ∧ after.words = left) ↔
      ∃ front, cursor.words = front ++ left ∧ phrases front value)

variable {ahead : α → List String → Prop} {before : β → List String → Prop} {phrases : Phrases α}
  {others : α → Phrases β}

/-- A tolerant reader recognizes what the strict one does. -/
theorem recognizes_ofReader {reader : Reader α} (recognizes : reader.Recognizes ahead phrases) :
    (ofReader reader).Recognizes ahead phrases := by
  intro cursor value left allowed
  simp only [ofReader_eq_read, and_true]
  exact recognizes cursor value left allowed

/-- Answering at once recognizes the empty phrase. -/
theorem recognizes_pure (value : α) :
    (pure value : Tolerant α).Recognizes ahead fun words found => words = [] ∧ found = value :=
  recognizes_ofReader (Reader.recognizes_pure value)

/-- Phrases may be described in another way. -/
theorem Recognizes.congr {reader : Tolerant α} {same : Phrases α}
    (recognizes : reader.Recognizes ahead phrases)
    (alike : ∀ words value, phrases words value ↔ same words value) :
    reader.Recognizes ahead same :=
  fun cursor => Phrases.MatchesAt.congr (recognizes cursor) fun words value _ _ _ =>
    alike words value

/-- Readers in a row recognize a phrase behind another one, when the second phrase and what is left
behind it may be left behind the first one. -/
theorem Recognizes.bind {reader : Tolerant α} {next : α → Tolerant β}
    (first : reader.Recognizes ahead phrases)
    (second : ∀ found, (next found).Recognizes before (others found))
    (meets : ∀ found front value left, others found front value → before value left →
      ahead found (front ++ left)) :
    (reader >>= next).Recognizes before (phrases.bind others) :=
  fun cursor => Phrases.MatchesAt.bind (fun _ _ => bind_eq_clean) (first cursor)
    (fun found middle _ => second found middle) meets

/-- Changing the value changes the values that phrases stand for. -/
theorem Recognizes.map {reader : Tolerant α} (change : α → β)
    (first : reader.Recognizes ahead phrases)
    (meets : ∀ found left, before (change found) left → ahead found left) :
    (reader >>= fun found => pure (change found)).Recognizes before fun words value =>
      ∃ found, value = change found ∧ phrases words found := by
  refine (first.bind (fun found => recognizes_pure (change found)) ?_).congr
    fun _ _ => Phrases.bind_empty_iff
  rintro found _ _ left ⟨rfl, rfl⟩ allowed
  exact meets found left allowed

/-- Behind a phrase that may stand anywhere no condition is left. -/
theorem Recognizes.append {reader : Tolerant α} {next : α → Tolerant β}
    (first : reader.Recognizes Anywhere phrases)
    (second : ∀ found, (next found).Recognizes before (others found)) :
    (reader >>= next).Recognizes before (phrases.bind others) :=
  first.bind second fun _ _ _ _ _ _ => trivial

/-- A fixed word in front of a reader. -/
theorem Recognizes.expect {next : Tolerant β} {phrases : Phrases β} {mark : String}
    (named : mark ≠ "") (rest : next.Recognizes before phrases) :
    (ofReader (Reader.expect mark) >>= fun _ => next).Recognizes before (phrases.behind mark) :=
  ((recognizes_ofReader (Reader.recognizes_expect named)).append fun _ => rest).congr
    fun _ _ => Phrases.bind_word_iff

/-- A choice by a fixed word, when no phrase of the other reader starts with it. -/
theorem Recognizes.choice {found missing : Tolerant β} {phrases others : Phrases β} {mark : String}
    (named : mark ≠ "") (here : found.Recognizes before phrases)
    (apart : missing.Recognizes before others)
    (starts : ∀ front value left, others front value → before value left →
      NotAt mark value (front ++ left)) :
    (ofReader (Reader.accept mark) >>= fun accepted =>
      if accepted then found else missing).Recognizes before
        fun words value => phrases.behind mark words value ∨ others words value := by
  have rest (accepted : Bool) : (if accepted then found else missing).Recognizes before
      (if accepted then phrases else others) := by
    cases accepted with
    | true => exact here
    | false => exact apart
  refine ((recognizes_ofReader (Reader.recognizes_accept named)).bind rest ?_).congr
    fun _ _ => Phrases.bind_choice_iff
  rintro accepted front value left spelled allowed rfl
  exact starts front value left spelled allowed

section Branches

variable {mark : String} {named : mark ≠ ""} {item : Tolerant (α ⊕ β)} {phrases : Phrases (α ⊕ β)}

/-- What stands behind an item of branches: other branches, unless the item is the last one. -/
def BehindItem (mark : String) (phrases : Phrases (α ⊕ β)) : α ⊕ β → Phrases (List α × Option β)
  | .inl value => (phrases.Branches mark).bind fun others words values =>
    words = [] ∧ values = (value :: others.1, others.2)
  | .inr last => fun words values => words = [] ∧ values = ([], some last)

/-- Reads what stands behind an item of branches. -/
def readBehindItem (mark : String) (named : mark ≠ "") (item : Tolerant (α ⊕ β)) :
    α ⊕ β → Tolerant (List α × Option β)
  | .inl value => branches mark named item >>= fun others => pure (value :: others.1, others.2)
  | .inr last => pure ([], some last)

/-- At a mark, branches are read as an item and what stands behind it. -/
theorem run_branches_behindItem {cursor : Cursor} (here : cursor.word = mark) :
    (branches mark named item).run cursor =
      (item >>= readBehindItem mark named item).run cursor.take := by
  rw [run_branches_of_word here]
  congr
  funext found
  cases found <;> rfl

/-- What stands behind an item is recognized where branches are. -/
theorem matchesAt_behindItem {cursor : Cursor}
    (rest : (phrases.Branches mark).MatchesAt cursor.words (NotAt mark) fun values after =>
      (branches mark named item).run cursor = ⟨[], .read values after⟩) (found : α ⊕ β) :
    (BehindItem mark phrases found).MatchesAt cursor.words (NotAt mark) fun values after =>
      (readBehindItem mark named item found).run cursor = ⟨[], .read values after⟩ := by
  cases found with
  | inr last => exact recognizes_pure ([], some last) cursor
  | inl value =>
    refine .bind (fun _ _ => bind_eq_clean) rest
      (fun others place _ => recognizes_pure (value :: others.1, others.2) place) ?_
    rintro others _ _ left ⟨rfl, rfl⟩ other
    exact other

/-- Branches are recognized where no further mark is left. -/
theorem recognizes_branches (items : item.Recognizes Anywhere phrases) :
    (branches mark named item).Recognizes (NotAt mark) (phrases.Branches mark) := by
  intro cursor
  induction measured : cursor.rest.length using Nat.strongRecOn generalizing cursor with
  | ind length ih =>
    by_cases here : cursor.word = mark
    · have more := Cursor.rest_ne_nil_of_word named here
      have whole := Phrases.MatchesAt.bind (fun _ _ => bind_eq_clean) (items cursor.take)
        (fun found middle ran => matchesAt_behindItem
          (ih _ (measured ▸ length_lt_of_take more ran) middle rfl) found)
        fun _ _ _ _ _ _ => trivial
      rw [run_branches_behindItem here, Cursor.words_of_word named here]
      refine (whole.behind mark).congr fun front values left stands other => ?_
      constructor
      · rintro ⟨_, rfl, found, words, _, rfl, first, rest⟩
        cases found with
        | inr last =>
          obtain ⟨rfl, rfl⟩ := rest
          simpa using Phrases.Branches.last first
        | inl value =>
          obtain ⟨others, behind, _, rfl, rest, rfl, rfl⟩ := rest
          simpa using Phrases.Branches.branch first rest
      · rintro (_ | only | ⟨first, rest⟩)
        · exact absurd (congrArg List.head? stands).symm other
        · exact ⟨_, rfl, _, _, [], by simp, only, rfl, rfl⟩
        · exact ⟨_, rfl, _, _, _, rfl, first, _, _, [], by simp, rest, rfl, rfl⟩
    · have nothing : Phrases.MatchesAt _ cursor.look.words (NotAt mark) _ :=
        recognizes_pure (([], none) : List α × Option β) cursor.look
      rw [Cursor.words_look] at nothing
      rw [run_branches_of_ne here]
      refine nothing.congr fun front values left stands _ => ?_
      constructor
      · rintro ⟨rfl, rfl⟩
        exact .nothing
      · rintro (_ | only | ⟨first, rest⟩)
        · exact ⟨rfl, rfl⟩
        · exact absurd (Cursor.word_of_words stands) here
        · exact absurd (Cursor.word_of_words stands) here

end Branches

end Tolerant

end FormPatch.Syntax
