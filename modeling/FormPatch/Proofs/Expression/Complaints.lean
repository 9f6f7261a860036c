import Mathlib.Data.List.Nodup
import FormPatch.Proofs.Armor.Streaming
import FormPatch.Proofs.Guard.Leading
import FormPatch.Proofs.Keyword.Streaming
import FormPatch.Proofs.Statement.Reports
import FormPatch.Proofs.Token.Partition

/-!
# Where faults are placed

A fault that names a word is placed at a token that spells the word, with two exceptions. The filter
of a keyword patch and the operation of an armor patch are judged only once the parenthesis behind
them has been taken, and they are reported there. Where no two tokens have one place, such a fault
is placed at a token that spells its word only when that word is an opening parenthesis itself.

Main statements: where the faults that name a word are placed, and that the faults of a whole token
list are placed in order, each within the statement that failed.
-/

namespace FormPatch

open Syntax Syntax.Reader

namespace Syntax

namespace Located

/-- Whether a fault is placed at one of some tokens that spells a word. -/
def IsAt (tokens : List Token) (word : String) (error : Located) : Prop :=
  ∃ token ∈ tokens, token.text = word ∧ token.position = error.position

/-- Whether a fault is placed at an opening parenthesis right behind a token that spells a word. -/
def IsBehind (tokens : List Token) (word : String) (error : Located) : Prop :=
  ∃ called opening, [called, opening] <:+: tokens ∧ called.text = word ∧ opening.text = "(" ∧
    opening.position = error.position

/-- Whether a fault that names a word is placed at that word, or behind it if it is a late one. -/
def IsPlaced (late : Fault → Bool) (tokens : List Token) (error : Located) : Prop :=
  ∀ word, error.fault.named? = some word → word ≠ "" →
    if late error.fault then error.IsBehind tokens word else error.IsAt tokens word

/-- Where no two tokens have one place, a fault at a parenthesis is at no other word. -/
theorem IsBehind.isAt_iff {tokens : List Token} {word : String} {error : Located}
    (apart : (tokens.map Token.position).Nodup) (behind : error.IsBehind tokens word) :
    error.IsAt tokens word ↔ word = "(" := by
  obtain ⟨called, opening, within, rfl, opens, placed⟩ := behind
  have opened : opening ∈ tokens := within.subset (by simp)
  constructor
  · rintro ⟨token, member, spelled, there⟩
    have same : token = opening :=
      List.inj_on_of_nodup_map apart member opened (there.trans placed.symm)
    rw [← spelled, same, opens]
  · intro named
    exact ⟨opening, opened, opens.trans named.symm, placed⟩

end Located

/-- Looking at a word shows the place that taking it shows. -/
theorem Cursor.shown_look (cursor : Cursor) : cursor.look.shown = cursor.take.shown := by
  obtain ⟨rest, shown⟩ := cursor
  cases rest <;> rfl

/-- A word that has just been taken within some tokens stands at the place that is shown. -/
theorem Cursor.Taken.isAt {tokens : List Token} {word : String} {cursor : Cursor}
    (taken : cursor.Taken (Cursor.IsWithin tokens) word) (some : word ≠ "") (fault : Fault) :
    Located.IsAt tokens word ⟨fault, cursor.shown⟩ := by
  obtain ⟨⟨rest, shown⟩, within, rfl, rfl⟩ := taken
  cases rest with
  | nil => exact absurd rfl some
  | cons token rest => exact ⟨token, within.subset List.mem_cons_self, rfl, rfl⟩

/-- A parenthesis that has just been taken behind a word stands at the place that is shown. -/
theorem Cursor.Taken.isBehind {tokens : List Token} {word : String} {cursor : Cursor}
    (taken : cursor.Taken (Cursor.Taken (Cursor.IsWithin tokens) word) "(") (some : word ≠ "")
    (fault : Fault) : Located.IsBehind tokens word ⟨fault, cursor.shown⟩ := by
  obtain ⟨_, ⟨⟨rest, shown⟩, within, rfl, rfl⟩, opens, rfl⟩ := taken
  match rest with
  | [] => exact absurd rfl some
  | [_] =>
    have empty : "" = "(" := opens
    exact absurd empty (by decide)
  | called :: opening :: rest =>
    exact ⟨called, opening, (List.prefix_append [called, opening] rest).isInfix.trans within.isInfix,
      rfl, opens, rfl⟩

/-- A fault that is not late is placed well at its word. -/
theorem Located.IsAt.isPlaced {late : Fault → Bool}
    (calls : ∀ fault, late fault = true → fault.namesCall = true) {tokens : List Token}
    {error : Located} (plain : error.fault.namesCall = false) {word : String}
    (named : error.fault.named? = some word) (placed : word ≠ "" → error.IsAt tokens word) :
    error.IsPlaced late tokens := by
  intro other spelled some
  cases named.symm.trans spelled
  have early : ¬ late error.fault = true := fun judged => by
    rw [calls _ judged] at plain
    cases plain
  rw [if_neg early]
  exact placed some

/-- Faults may be reported at the words they name, if only the words of calls are reported late. -/
theorem prompt_isPlaced {late : Fault → Bool}
    (calls : ∀ fault, late fault = true → fault.namesCall = true) (tokens : List Token) :
    Prompt (Cursor.IsWithin tokens) fun error _ => error.IsPlaced late tokens where
  unnamed _ none word named := by cases none.symm.trans named
  taken {_ cursor} within named plain :=
    Located.IsAt.isPlaced calls plain named fun some =>
      Cursor.Taken.isAt ⟨cursor, within, rfl, rfl⟩ some _
  looked {_ cursor} within named plain := by
    rw [Cursor.shown_look]
    exact Located.IsAt.isPlaced calls plain named fun some =>
      Cursor.Taken.isAt ⟨cursor, within, rfl, rfl⟩ some _

end Syntax

section Readers

variable {places : Cursor → Prop} [Cursor.Steady places] {ends : Located → Cursor → Prop}

namespace ArmorOperation

/-- The reader of slots stays at places of a kind and finds its faults at places that suit them. -/
theorem leads_readSlots (prompt : Prompt places ends) :
    readSlots.Leads places (fun _ => places) ends :=
  (leads_slot prompt).bind fun _ => (leads_afterEach (leads_slot prompt)).bind fun _ =>
    leads_pure fun _ => id

/-- An edit of a list does not leave steady places, when an unknown operation may be reported behind
the parenthesis behind it. -/
theorem leads_edit (prompt : Prompt places ends)
    (late : ∀ word cursor, cursor.Taken (Cursor.Taken places word) "(" →
      ends ⟨.operation word, cursor.shown⟩ cursor)
    {clear add remove : Reader ArmorOperation} (cleared : clear.Leads places (fun _ => places) ends)
    (added : add.Leads places (fun _ => places) ends)
    (removed : remove.Leads places (fun _ => places) ends) :
    (next >>= fun word => expect "(" >>= fun _ =>
      if word = "Clear" then clear else if word = "Add" then add
      else if word = "Remove" then remove else fail (.operation word)).Leads
        places (fun _ => places) ends := by
  refine leads_taking.bind fun word =>
    (leads_expecting prompt (fun _ => Cursor.Taken.held) "(").bind fun _ => ?_
  split
  · exact cleared.narrow fun _ => Cursor.Taken.held_twice
  · split
    · exact added.narrow fun _ => Cursor.Taken.held_twice
    · split
      · exact removed.narrow fun _ => Cursor.Taken.held_twice
      · exact leads_fail (late word)

/-- The reader of edits stays at places of a kind when that of one edit does. -/
theorem leads_readEdits (prompt : Prompt places ends) (field : ArmorField)
    {edit : Reader ArmorOperation} (edits : edit.Leads places (fun _ => places) ends) :
    (readEdits field edit).Leads places (fun _ => places) ends := by
  refine (leads_afterEach edits).bind fun found => ?_
  split
  · intro cursor held
    exact prompt.looked held rfl rfl
  · exact leads_pure fun _ => id

/-- The reader of a value that is set stays at places of a kind when that of the value does. -/
theorem leads_readSet (prompt : Prompt places ends) {α : Type} {value : Reader α}
    (values : value.Leads places (fun _ => places) ends) (set : α → ArmorOperation) :
    (readSet value set).Leads places (fun _ => places) ends :=
  (leads_expect prompt "=").bind fun _ => values.bind fun _ => leads_pure fun _ => id

/-- The edits of a field do not leave steady places, when an unknown operation may be reported
behind the parenthesis behind it. -/
theorem leads_read (prompt : Prompt places ends)
    (late : ∀ word cursor, cursor.Taken (Cursor.Taken places word) "(" →
      ends ⟨.operation word, cursor.shown⟩ cursor) (field : ArmorField) :
    (read field).Leads places (fun _ => places) ends := by
  have nothing (operation : ArmorOperation) : (expect ")" >>= fun _ => pure operation).Leads
      places (fun _ => places) ends :=
    (leads_expect prompt ")").bind fun _ => leads_pure fun _ => id
  have slots (use : List Nat → ArmorOperation) :
      (arguments slot >>= fun slots => pure (use slots)).Leads places (fun _ => places) ends :=
    (leads_arguments prompt (leads_slot prompt)).bind fun _ => leads_pure fun _ => id
  have forms (use : List String → ArmorOperation) :
      (arguments form >>= fun references => pure (use references)).Leads
        places (fun _ => places) ends :=
    (leads_arguments prompt (leads_form prompt)).bind fun _ => leads_pure fun _ => id
  cases field with
  | slots =>
    refine (leads_accept "=").bind fun found => ?_
    cases found with
    | true => exact (leads_readSlots prompt).bind fun _ => leads_pure fun _ => id
    | false =>
      exact leads_readEdits prompt .slots
        (leads_edit prompt late (nothing _) (slots _) (slots _))
  | keywords =>
    exact leads_readEdits prompt .keywords
      (leads_edit prompt late (nothing _) (forms addKeywords) (forms removeKeywords))
  | fullName => exact leads_readSet prompt (leads_string prompt) setFullName
  | rating => exact leads_readSet prompt (leads_number prompt) setRating
  | weight => exact leads_readSet prompt (leads_number prompt) setWeight
  | value => exact leads_readSet prompt (leads_integer prompt) setValue

end ArmorOperation

end Readers

section Patches

variable {tokens : List Token}

/-- The operations of armor patches are reported late. -/
def ArmorPatch.isLate : Fault → Bool
  | .operation _ => true
  | _ => false

/-- The filters of keyword patches are reported late. -/
def KeywordPatch.isLate : Fault → Bool
  | .filter _ => true
  | _ => false

/-- In an armor file the late complaints are those about operations. -/
theorem ArmorPatch.isLate_iff {fault : Fault} {word : String} (named : fault.named? = some word) :
    isLate fault = true ↔ fault = .operation word := by
  cases fault <;> simp_all [isLate, Fault.named?]

/-- In a keyword file the late complaints are those about filters. -/
theorem KeywordPatch.isLate_iff {fault : Fault} {word : String}
    (named : fault.named? = some word) : isLate fault = true ↔ fault = .filter word := by
  cases fault <;> simp_all [isLate, Fault.named?]

/-- In an armor file every fault but a late one is placed at its token. -/
theorem ArmorPatch.prompt (tokens : List Token) :
    Prompt (Cursor.IsWithin tokens) fun error _ => error.IsPlaced isLate tokens := by
  refine prompt_isPlaced (fun fault late => ?_) tokens
  cases fault <;> simp_all [isLate, Fault.namesCall]

/-- In a keyword file every fault but a late one is placed at its token. -/
theorem KeywordPatch.prompt (tokens : List Token) :
    Prompt (Cursor.IsWithin tokens) fun error _ => error.IsPlaced isLate tokens := by
  refine prompt_isPlaced (fun fault late => ?_) tokens
  cases fault <;> simp_all [isLate, Fault.namesCall]

/-- A filter of armor patches is judged as soon as it has been taken. -/
theorem ArmorPatch.leads_readFilter : readFilter.Leads (Cursor.IsWithin tokens)
    (fun _ => Cursor.IsWithin tokens) fun error _ => error.IsPlaced isLate tokens := by
  refine leads_taking.bind fun word => ?_
  cases filterOfWord? word with
  | none =>
    refine leads_fail fun cursor taken other spelled some => ?_
    cases spelled
    exact taken.isAt some _
  | some filter =>
    have argument : (expect "(" >>= fun _ => form >>= fun reference => expect ")" >>= fun _ =>
        pure (filter reference)).Leads (Cursor.IsWithin tokens) (fun _ => Cursor.IsWithin tokens)
          fun error _ => error.IsPlaced isLate tokens :=
      (leads_expect (prompt tokens) "(").bind fun _ => (leads_form (prompt tokens)).bind fun _ =>
        (leads_expect (prompt tokens) ")").bind fun _ => leads_pure fun _ => id
    exact argument.narrow fun _ => Cursor.Taken.held

/-- Reading an armor patch, every fault is placed at its token or is late. -/
theorem ArmorPatch.leads_read : read.Leads (Cursor.IsWithin tokens)
    (fun _ => Cursor.IsWithin tokens) fun error _ => error.IsPlaced isLate tokens := by
  refine leads_readFilter.bind fun filter => (leads_expect (prompt tokens) ".").bind fun _ => ?_
  refine leads_taking.bind fun word => ?_
  cases ArmorField.ofWord? word with
  | none => exact leads_fail_taken (prompt tokens) rfl rfl
  | some field =>
    have operations : (ArmorOperation.read field).Leads (Cursor.IsWithin tokens)
        (fun _ => Cursor.IsWithin tokens) fun error _ => error.IsPlaced isLate tokens := by
      refine ArmorOperation.leads_read (prompt tokens) ?_ field
      intro word cursor taken other spelled some
      cases spelled
      exact taken.isBehind some _
    exact (operations.narrow fun _ => Cursor.Taken.held).bind fun _ =>
      (leads_expect (prompt tokens) ";").bind fun _ => leads_pure fun _ => id

/-- A filter of keyword patches is judged behind the parenthesis that has been taken behind it. -/
theorem KeywordPatch.leads_readFilter (word : String) : (readFilter word).Leads
    (Cursor.Taken (Cursor.Taken (Cursor.IsWithin tokens) word) "(")
    (fun _ => Cursor.IsWithin tokens) fun error _ => error.IsPlaced isLate tokens := by
  unfold readFilter
  split
  · refine ((leads_form (prompt tokens)).narrow fun _ => Cursor.Taken.held_twice).bind fun _ => ?_
    exact leads_pure fun _ => id
  · split
    · refine ((leads_string (prompt tokens)).narrow fun _ => Cursor.Taken.held_twice).bind
        fun _ => ?_
      exact leads_pure fun _ => id
    · refine leads_fail fun cursor taken other spelled some => ?_
      cases spelled
      exact taken.isBehind some _

/-- Reading a keyword patch, every fault is placed at its token or is late. -/
theorem KeywordPatch.leads_read : read.Leads (Cursor.IsWithin tokens)
    (fun _ => Cursor.IsWithin tokens) fun error _ => error.IsPlaced isLate tokens := by
  refine leads_taking.bind fun word =>
    (leads_expecting (prompt tokens) (fun _ => Cursor.Taken.held) "(").bind fun _ => ?_
  refine (leads_readFilter word).bind fun _ => (leads_expect (prompt tokens) ")").bind fun _ => ?_
  refine (leads_expect (prompt tokens) ".").bind fun _ =>
    (leads_expect (prompt tokens) "EditorID").bind fun _ => ?_
  refine (leads_expect (prompt tokens) "=").bind fun _ =>
    (leads_string (prompt tokens)).bind fun _ => ?_
  exact (leads_require_unnamed (prompt tokens) rfl).bind fun _ =>
    (leads_expect (prompt tokens) ";").bind fun _ => leads_pure fun _ => id

end Patches

/-- Whether a reader that starts somewhere within some tokens may report a fault. -/
def Syntax.Reader.Reports {α : Type} (tokens : List Token) (reader : Reader α) (error : Located) :
    Prop :=
  ∃ cursor after, cursor.IsWithin tokens ∧ reader.run cursor = .failed error after

/-- What ends suit holds of every fault that is reported. -/
theorem Syntax.Reader.Leads.of_reports {α : Type} {tokens : List Token} {reader : Reader α}
    {behind : α → Cursor → Prop} {suits : Located → Prop} {error : Located}
    (leads : reader.Leads (Cursor.IsWithin tokens) behind fun error _ => suits error)
    (reports : reader.Reports tokens error) : suits error := by
  obtain ⟨cursor, after, within, ran⟩ := reports
  have ended := leads cursor within
  rwa [ran] at ended

/-- Wherever the readers of guards, of armor patches and of keyword patches start within some
tokens, a fault that they report and that names a word is placed at a token that spells it. Only the
operations of armor patches and the filters of keyword patches are reported at the parenthesis
behind the word. Where no two tokens have one place, as in every text, that is at no token that
spells the word, unless the word is such a parenthesis itself. -/
theorem complaints_of_readers (tokens : List Token) :
    (∀ error, Guard.read.Reports tokens error → ∀ word, error.fault.named? = some word →
      word ≠ "" → error.IsAt tokens word) ∧
    (∀ error, ArmorPatch.read.Reports tokens error → ∀ word, error.fault.named? = some word →
      word ≠ "" →
        if error.fault = .operation word then error.IsBehind tokens word
        else error.IsAt tokens word) ∧
    (∀ error, KeywordPatch.read.Reports tokens error → ∀ word, error.fault.named? = some word →
      word ≠ "" →
        if error.fault = .filter word then error.IsBehind tokens word
        else error.IsAt tokens word) ∧
    ((tokens.map Token.position).Nodup → ∀ (error : Located) word, error.IsBehind tokens word →
      (error.IsAt tokens word ↔ word = "(")) ∧
    ∀ source, tokens = tokenize source → (tokens.map Token.position).Nodup := by
  refine ⟨fun error reports => ?_, fun error reports word named some => ?_,
    fun error reports word named some => ?_, fun apart _ _ behind => behind.isAt_iff apart,
    fun source same => same ▸ (cut_tokenize source).nodup_positions⟩
  · have prompt : Prompt (Cursor.IsWithin tokens) fun error _ =>
        error.IsPlaced (fun _ => false) tokens := prompt_isPlaced (by simp) tokens
    exact (Guard.leads_read prompt).of_reports reports
  · have placed := ArmorPatch.leads_read.of_reports reports word named some
    simpa only [ArmorPatch.isLate_iff named] using placed
  · have placed := KeywordPatch.leads_read.of_reports reports word named some
    simpa only [KeywordPatch.isLate_iff named] using placed

/-- A statement with a filter that keyword patches do not have. -/
def unknownFilter : List Token := tokenize "Foo(\"X\").EditorID = \"Y\";"

/-- The unknown filter is reported at the parenthesis behind it. -/
theorem unknownFilter_is_misplaced :
    ¬ ∀ tokens error, KeywordPatch.read.Reports tokens error →
      ∀ word, error.fault.named? = some word → word ≠ "" → error.IsAt tokens word := by
  intro placed
  have reports : KeywordPatch.read.Reports unknownFilter ⟨.filter "Foo", ⟨1, 4⟩⟩ :=
    ⟨.ofTokens unknownFilter, ⟨unknownFilter.drop 2, ⟨1, 4⟩⟩, List.suffix_rfl, by decide +kernel⟩
  obtain ⟨token, member, spelled, there⟩ := placed _ _ reports "Foo" rfl (by decide)
  have first : ∀ token ∈ unknownFilter, token.text = "Foo" → token.position = ⟨1, 1⟩ := by
    decide +kernel
  exact absurd ((first token member spelled).symm.trans there) (by decide)

/-- With either recovery and for every token list, the faults of both grammars are placed in order.
Each one is that of an attempt that failed, and is placed at the token that was looked at last then,
which is one of the tokens of the attempt; the numbers of these tokens do not fall from one fault to
the next. -/
theorem places_of_faults (recovery : Recovery) (tokens : List Token) :
    ((Course.ofTokens ArmorPatch.grammar recovery tokens).reading =
        Reading.ofTokens ArmorPatch.grammar recovery tokens ∧
      (Course.ofTokens ArmorPatch.grammar recovery tokens).PlacesFaults tokens) ∧
    ((Course.ofTokens KeywordPatch.grammar recovery tokens).reading =
        Reading.ofTokens KeywordPatch.grammar recovery tokens ∧
      (Course.ofTokens KeywordPatch.grammar recovery tokens).PlacesFaults tokens) := by
  have armor : (Course.ofTokens ArmorPatch.grammar recovery tokens).PlacesFaults tokens :=
    Course.placesFaults_ofTokens ArmorPatch.composed_read recovery tokens
  have keyword : (Course.ofTokens KeywordPatch.grammar recovery tokens).PlacesFaults tokens :=
    Course.placesFaults_ofTokens KeywordPatch.composed_read recovery tokens
  exact ⟨⟨Course.reading_ofCursor _ _ _, armor⟩, ⟨Course.reading_ofCursor _ _ _, keyword⟩⟩

end FormPatch
