import FormPatch.Proofs.Syntax.Answers
import FormPatch.Proofs.Syntax.Composed

/-!
# Where readers come to

From places of one kind a reader comes to places of another, which may depend on the value that it
answers, or it ends at a fault. Readers in a row lead from place to place. Places that looking and
taking do not leave are not left by a composed reader, and what it finds wrong is reported where it
has come to.

Many faults name a word. The readers of values report such a fault as soon as they have taken or
seen the word, so they end well wherever faults that are reported this promptly do.
-/

namespace FormPatch.Syntax

variable {α β : Type}

/-- Places that looking at a word and taking one do not leave. -/
class Cursor.Steady (places : Cursor → Prop) : Prop where
  /-- Looking stays. -/
  look {cursor : Cursor} (held : places cursor) : places cursor.look
  /-- Taking stays. -/
  take {cursor : Cursor} (held : places cursor) : places cursor.take

instance {places : Cursor → Prop} [Cursor.Inherited places] : Cursor.Steady places where
  look := Cursor.Inherited.look
  take := Cursor.Inherited.take

/-- Where a cursor stands that has just taken a word. -/
def Cursor.Taken (places : Cursor → Prop) (word : String) (cursor : Cursor) : Prop :=
  ∃ before, places before ∧ before.word = word ∧ before.take = cursor

/-- Behind a word that was taken the places are still those in front of it. -/
theorem Cursor.Taken.held {places : Cursor → Prop} [Cursor.Steady places] {word : String}
    {cursor : Cursor} (taken : cursor.Taken places word) : places cursor := by
  obtain ⟨before, held, _, rfl⟩ := taken
  exact Cursor.Steady.take held

/-- Behind a second word that was taken. -/
theorem Cursor.Taken.held_twice {places : Cursor → Prop} [Cursor.Steady places]
    {first second : String} {cursor : Cursor}
    (taken : cursor.Taken (Cursor.Taken places first) second) : places cursor := by
  obtain ⟨before, once, _, rfl⟩ := taken
  exact Cursor.Steady.take once.held

/-- The word that a fault complains about, for faults that complain about one. -/
def Fault.named? : Fault → Option String
  | .expected _ found => some found
  | .notString found => some found
  | .formNumber found => some found
  | .integer found => some found
  | .slot found => some found
  | .predicate found => some found
  | .filter found => some found
  | .element found => some found
  | .operation found => some found
  | .noOperation _ found => some found
  | _ => none

/-- Whether a fault complains about the word of a filter or of an operation. Behind such a word
stands a parenthesis, and some readers take it before they judge the word. -/
def Fault.namesCall : Fault → Bool
  | .filter _ | .operation _ => true
  | _ => false

namespace Outcome

variable {behind : α → Cursor → Prop} {ends : Located → Cursor → Prop}

/-- Whether a value is answered at a place that suits it, or a fault is found at one that suits the
fault. -/
def Suits (behind : α → Cursor → Prop) (ends : Located → Cursor → Prop) : Outcome α → Prop
  | read value cursor => behind value cursor
  | failed error cursor => ends error cursor

end Outcome

namespace Reader

variable {before : Cursor → Prop} {middle : α → Cursor → Prop} {behind : β → Cursor → Prop}
  {ends : Located → Cursor → Prop}

/-- Whether a reader, started at places of one kind, comes to places that suit what it answers. -/
def Leads (before : Cursor → Prop) (behind : α → Cursor → Prop) (ends : Located → Cursor → Prop)
    (reader : Reader α) : Prop :=
  ∀ cursor, before cursor → (reader.run cursor).Suits behind ends

/-- The places that a reader comes to are those from which the next one goes on. -/
theorem Leads.bind {reader : Reader α} {next : α → Reader β}
    (first : reader.Leads before middle ends)
    (second : ∀ value, (next value).Leads (middle value) behind ends) :
    (reader >>= next).Leads before behind ends := by
  intro cursor held
  have head := first cursor held
  rw [run_bind]
  cases ran : reader.run cursor with
  | read value after =>
    rw [ran] at head
    exact second value after head
  | failed error after =>
    rw [ran] at head
    exact head

/-- Fewer places to start from lead as well. -/
theorem Leads.narrow {reader : Reader α} {narrower : Cursor → Prop}
    (leads : reader.Leads before middle ends) (narrows : ∀ cursor, narrower cursor → before cursor) :
    reader.Leads narrower middle ends :=
  fun cursor held => leads cursor (narrows cursor held)

/-- Answering at once comes to where it stands. -/
theorem leads_pure {value : α} (suits : ∀ cursor, before cursor → middle value cursor) :
    (pure value : Reader α).Leads before middle ends :=
  suits

/-- A failure comes to where it stands, with the place that was looked at last. -/
theorem leads_fail {fault : Fault}
    (suits : ∀ cursor, before cursor → ends ⟨fault, cursor.shown⟩ cursor) :
    (fail fault : Reader α).Leads before middle ends :=
  suits

/-- A condition is met without moving, or reported. -/
theorem leads_require {condition : Bool} {fault : Fault}
    (suits : ∀ cursor, before cursor → ends ⟨fault, cursor.shown⟩ cursor) :
    (require condition fault).Leads before (fun _ => before) ends := by
  cases condition with
  | false => exact leads_fail suits
  | true => exact leads_pure fun _ => id

section Steady

variable {places : Cursor → Prop} [Cursor.Steady places] {mark : String} {named : mark ≠ ""}
  {item : Reader α}

/-- Taking a word does not leave places of a kind. -/
theorem leads_next : next.Leads places (fun _ => places) ends := fun _ => Cursor.Steady.take

/-- Looking at a word does not leave places of a kind. -/
theorem leads_peek : peek.Leads places (fun _ => places) ends := fun _ => Cursor.Steady.look

/-- Accepting a word does not leave places of a kind. -/
theorem leads_accept (mark : String) : (accept mark).Leads places (fun _ => places) ends := by
  refine leads_peek.bind fun found => ?_
  split
  · exact leads_next.bind fun _ => leads_pure fun _ => id
  · exact leads_pure fun _ => id

/-- Items behind marks do not leave steady places that the item does not leave. -/
theorem leads_afterEach (items : item.Leads places (fun _ => places) ends) :
    (afterEach mark named item).Leads places (fun _ => places) ends := by
  intro cursor
  induction measured : cursor.rest.length using Nat.strongRecOn generalizing cursor with
  | ind length ih =>
    intro held
    by_cases here : cursor.word = mark
    · rw [run_afterEach_of_word here, run_bind]
      have first := items cursor.take (Cursor.Steady.take held)
      cases ran : item.run cursor.take with
      | failed error after =>
        rw [ran] at first
        exact first
      | read value after =>
        rw [ran] at first
        have shorter : after.rest.length < length :=
          measured ▸ length_lt_of_take (Cursor.rest_ne_nil_of_word named here) ran
        have others : ((afterEach mark named item).run after).Suits (fun _ => places) ends :=
          ih _ shorter after rfl first
        simp only [run_bind]
        cases rest : (afterEach mark named item).run after with
        | failed error later =>
          rw [rest] at others
          exact others
        | read values later =>
          rw [rest] at others
          exact others
    · rw [run_afterEach_of_ne here]
      exact Cursor.Steady.look held

/-- Composed readers do not leave steady places, and report each fault where they have come to. -/
theorem Composed.leads {reader : Reader α} (composed : reader.Composed) :
    reader.Leads places (fun _ => places)
      fun error after => places after ∧ error.position = after.shown := by
  induction composed with
  | answers value => exact leads_pure fun _ => id
  | fails fault => exact leads_fail fun _ held => ⟨held, rfl⟩
  | takes => exact leads_next
  | looks => exact leads_peek
  | bind _ _ first second => exact first.bind second
  | afterEach mark named _ items => exact leads_afterEach items

end Steady

/-- Whether faults may be reported at places of some kind: those that name no word anywhere, and
those that name one at that word, except for the words of calls. -/
structure Prompt (places : Cursor → Prop) (ends : Located → Cursor → Prop) : Prop where
  /-- A fault that names no word. -/
  unnamed {fault : Fault} {cursor : Cursor} (held : places cursor) (named : fault.named? = none) :
    ends ⟨fault, cursor.shown⟩ cursor
  /-- A fault that names the word that was just taken. -/
  taken {fault : Fault} {cursor : Cursor} (held : places cursor)
    (named : fault.named? = some cursor.word) (plain : fault.namesCall = false) :
    ends ⟨fault, cursor.take.shown⟩ cursor.take
  /-- A fault that names the word that was just looked at. -/
  looked {fault : Fault} {cursor : Cursor} (held : places cursor)
    (named : fault.named? = some cursor.word) (plain : fault.namesCall = false) :
    ends ⟨fault, cursor.look.shown⟩ cursor.look

section Prompt

variable {places : Cursor → Prop} {mark : String} {named : mark ≠ ""} {item : Reader α}

/-- Behind the next word stands a cursor that has just taken it. -/
theorem leads_taking : next.Leads before (fun word => Cursor.Taken before word) ends :=
  fun cursor held => ⟨cursor, held, rfl, rfl⟩

/-- A word that was just taken may be reported. -/
theorem leads_fail_taken (prompt : Prompt places ends) {fault : Fault} {word : String}
    (named : fault.named? = some word) (plain : fault.namesCall = false) :
    (fail fault : Reader α).Leads (Cursor.Taken places word) middle ends := by
  refine leads_fail fun cursor taken => ?_
  obtain ⟨first, held, rfl, rfl⟩ := taken
  exact prompt.taken held named plain

/-- Behind a fixed word that was expected and met, it has just been taken. -/
theorem leads_expecting (prompt : Prompt places ends)
    (within : ∀ cursor, before cursor → places cursor) (mark : String) :
    (expect mark).Leads before (fun _ => Cursor.Taken before mark) ends := by
  refine leads_taking.bind fun found => ?_
  split
  · next same => exact leads_pure fun _ taken => same ▸ taken
  · refine leads_fail fun cursor taken => ?_
    obtain ⟨first, held, rfl, rfl⟩ := taken
    exact prompt.taken (within _ held) rfl rfl

/-- A required condition whose fault names no word may fail at any place of a kind. -/
theorem leads_require_unnamed (prompt : Prompt places ends) {condition : Bool} {fault : Fault}
    (named : fault.named? = none) : (require condition fault).Leads places (fun _ => places) ends :=
  leads_require fun _ held => prompt.unnamed held named

variable [Cursor.Steady places]

/-- Expecting a word stays at places of a kind and finds its fault at one that suits it. -/
theorem leads_expect (prompt : Prompt places ends) (mark : String) :
    (expect mark).Leads places (fun _ => places) ends := by
  intro cursor held
  have first := leads_expecting prompt (fun _ => id) mark cursor held
  cases ran : (expect mark).run cursor with
  | read value after =>
    rw [ran] at first
    exact first.held
  | failed error after =>
    rw [ran] at first
    exact first

/-- A word that was just taken is judged. -/
theorem leads_require_taken (prompt : Prompt places ends) {condition : Bool} {fault : Fault}
    {word : String} (named : fault.named? = some word) (plain : fault.namesCall = false) :
    (require condition fault).Leads (Cursor.Taken places word) (fun _ => places) ends := by
  cases condition with
  | false => exact leads_fail_taken prompt named plain
  | true => exact leads_pure fun _ taken => taken.held

/-- Reading a string stays at places of a kind and finds its faults at places that suit them. -/
theorem leads_string (prompt : Prompt places ends) :
    string.Leads places (fun _ => places) ends := by
  refine leads_taking.bind fun found => ?_
  cases Token.unquote? found with
  | some text => exact leads_pure fun _ taken => taken.held
  | none =>
    cases Token.opensString found with
    | true => exact leads_fail fun _ taken => prompt.unnamed taken.held rfl
    | false => exact leads_fail_taken prompt rfl rfl

/-- Reading a form stays at places of a kind and finds its faults at places that suit them. -/
theorem leads_form (prompt : Prompt places ends) : form.Leads places (fun _ => places) ends := by
  refine (leads_string prompt).bind fun plugin => ?_
  refine (leads_require_unnamed prompt rfl).bind fun _ => (leads_expect prompt "|").bind fun _ => ?_
  exact leads_taking.bind fun number => (leads_require_taken prompt rfl rfl).bind fun _ =>
    leads_pure fun _ => id

/-- Reading an integer stays at places of a kind and finds its faults at places that suit them. -/
theorem leads_integer (prompt : Prompt places ends) :
    integer.Leads places (fun _ => places) ends := by
  refine leads_taking.bind fun found => ?_
  split
  · split
    · exact leads_pure fun _ taken => taken.held
    · exact leads_fail_taken prompt rfl rfl
  · exact leads_fail_taken prompt rfl rfl

/-- Reading a slot stays at places of a kind and finds its faults at places that suit them. -/
theorem leads_slot (prompt : Prompt places ends) : slot.Leads places (fun _ => places) ends := by
  refine leads_taking.bind fun found => ?_
  split
  · split
    · exact leads_pure fun _ taken => taken.held
    · exact leads_fail_taken prompt rfl rfl
  · exact leads_fail_taken prompt rfl rfl

/-- Reading a number stays at places of a kind and finds its faults at places that suit them. -/
theorem leads_number (prompt : Prompt places ends) :
    number.Leads places (fun _ => places) ends := by
  refine leads_next.bind fun whole => (leads_require_unnamed prompt rfl).bind fun _ => ?_
  refine (leads_accept ".").bind fun found => ?_
  cases found with
  | false => exact leads_pure fun _ => id
  | true =>
    exact leads_next.bind fun _ => (leads_require_unnamed prompt rfl).bind fun _ =>
      leads_pure fun _ => id

/-- Reading arguments stays at places of a kind and finds its faults at places that suit them, when
each item does. -/
theorem leads_arguments (prompt : Prompt places ends)
    (items : item.Leads places (fun _ => places) ends) :
    (arguments item).Leads places (fun _ => places) ends :=
  items.bind fun _ => (leads_afterEach items).bind fun _ => (leads_expect prompt ")").bind fun _ =>
    leads_pure fun _ => id

end Prompt

end Reader

end FormPatch.Syntax
