import FormPatch.Proofs.Syntax.Phrases
import FormPatch.Proofs.Syntax.Values

/-!
# How values are spelled

The phrases for each kind of value, and that its reader recognizes them. The reader of numbers looks
one word too far, for a point; every other reader of values stops by itself.
-/

namespace FormPatch

open Syntax

namespace Text

variable {characters digits : List Char}

/-- Which characters denote which natural number: decimal digits, perhaps behind a plus sign. -/
inductive IsNatural : List Char → Nat → Prop
  /-- Digits. -/
  | bare {digits : List Char} (run : isDecimal digits = true) : IsNatural digits (valueOf 10 digits)
  /-- Digits behind a plus sign. -/
  | plus {digits : List Char} (run : isDecimal digits = true) :
    IsNatural ('+' :: digits) (valueOf 10 digits)

/-- Which characters denote which integer: those of a natural number, or digits behind a minus
sign. -/
inductive IsInteger : List Char → Int → Prop
  /-- A natural number. -/
  | natural {characters : List Char} {value : Nat} (natural : IsNatural characters value) :
    IsInteger characters value
  /-- Digits behind a minus sign. -/
  | minus {digits : List Char} (run : isDecimal digits = true) :
    IsInteger ('-' :: digits) (-(valueOf 10 digits : Int))

/-- Digits are read exactly when they are decimal, as the number they stand for. -/
theorem decimal?_eq_some {value : Nat} :
    decimal? digits = some value ↔ isDecimal digits = true ∧ valueOf 10 digits = value := by
  unfold decimal?
  split
  · next run => simp [run]
  · next other => simp [other]

/-- A sign is no digit. -/
theorem isDecimal_cons_of_not {sign : Char} (other : sign.isDigit = false) :
    isDecimal (sign :: digits) = false := by
  simp [isDecimal, other]

/-- Characters are read as a natural number exactly when they spell it. -/
theorem natural?_eq_some {value : Nat} :
    natural? characters = some value ↔ IsNatural characters value := by
  constructor
  · intro read
    unfold natural? at read
    split at read
    · obtain ⟨run, rfl⟩ := decimal?_eq_some.1 read
      exact .plus run
    · obtain ⟨run, rfl⟩ := decimal?_eq_some.1 read
      exact .bare run
  · rintro (run | run)
    · rw [natural?_of_isDecimal run]
      exact decimal?_eq_some.2 ⟨run, rfl⟩
    · exact decimal?_eq_some.2 ⟨run, rfl⟩

/-- Characters are read as an integer exactly when they spell it. -/
theorem integer?_eq_some {value : Int} :
    integer? characters = some value ↔ IsInteger characters value := by
  constructor
  · intro read
    unfold integer? at read
    split at read
    · next digits =>
      cases decimal : decimal? digits with
      | none =>
        rw [decimal] at read
        cases read
      | some found =>
        obtain ⟨run, rfl⟩ := decimal?_eq_some.1 decimal
        rw [decimal] at read
        exact Option.some.inj read ▸ .minus run
    · cases natural : natural? characters with
      | none =>
        rw [natural] at read
        cases read
      | some found =>
        rw [natural] at read
        exact Option.some.inj read ▸ .natural (natural?_eq_some.1 natural)
  · rintro (natural | run)
    · unfold integer?
      split
      · next digits =>
        -- Neither a digit nor a plus sign is a minus sign.
        have minus : isDecimal ('-' :: digits) = false := isDecimal_cons_of_not (by decide)
        cases natural with
        | bare run => rw [minus] at run; cases run
      · rw [natural?_eq_some.2 natural]
        rfl
    · rw [integer?, decimal?_eq_some.2 ⟨run, rfl⟩]
      rfl

/-- A hexadecimal number is a run of digits behind one of the marks or none. -/
theorem isHexNumber_iff {word number : String} :
    isHexNumber word = true ∧ stripHexMark word = number ↔
      ∃ mark ∈ ["", "0x", "0X"], word = mark ++ number ∧ isHexRun number.toList = true := by
  constructor
  · rintro ⟨run, rfl⟩
    rw [isHexNumber] at run
    unfold stripHexMark
    rw [String.toList_ofList]
    generalize spelled : word.toList = characters at run
    unfold dropHexMark at run ⊢
    split at run
    · exact ⟨"0x", by simp, String.toList_inj.1 (by simp [spelled]), run⟩
    · exact ⟨"0X", by simp, String.toList_inj.1 (by simp [spelled]), run⟩
    · exact ⟨"", by simp, String.toList_inj.1 (by simp [spelled]), run⟩
  · rintro ⟨mark, member, rfl, run⟩
    have dropped : dropHexMark (mark ++ number).toList = number.toList := by
      rw [String.toList_append]
      simp only [List.mem_cons, List.not_mem_nil, or_false] at member
      rcases member with rfl | rfl | rfl
      · exact dropHexMark_of_isHexRun run
      · rfl
      · rfl
    rw [isHexNumber, stripHexMark, dropped, String.ofList_toList]
    exact ⟨run, rfl⟩

end Text

/-- A text is in quotes exactly when its quotes can be taken off. -/
theorem Token.unquote?_eq_some {word text : String} :
    unquote? word = some text ↔ word = inQuotes text := by
  constructor
  · intro unquoted
    unfold unquote? at unquoted
    split at unquoted
    · next rest spelled =>
      split at unquoted
      · next closed =>
        obtain rfl := Option.some.inj unquoted
        obtain ⟨inside, rfl⟩ := List.getLast?_eq_some_iff.1 closed
        apply String.toList_inj.1
        simp [spelled, inQuotes]
      · cases unquoted
    · cases unquoted
  · rintro rfl
    exact unquote?_inQuotes text

/-- A word is its digits behind its sign. -/
theorem Syntax.Reader.signedDigits_splitSign (word : String) :
    Number.signedDigits (splitSign word.toList).1 (splitSign word.toList).2 = word := by
  apply String.toList_inj.1
  rw [Number.signedDigits, String.toList_ofList]
  unfold splitSign
  split
  · next digits spelled => simp [spelled]
  · next digits spelled => rfl

namespace Syntax

namespace Phrases

/-- A text in quotes. -/
def string : Phrases String := fun words text => words = [inQuotes text]

/-- A form reference: the name of a plugin in quotes, a bar and a hexadecimal number, which may
carry a mark that does not count. -/
inductive Form : Phrases String
  /-- A form reference. -/
  | mk {plugin mark number : String} (named : plugin ≠ "") (marked : mark ∈ ["", "0x", "0X"])
    (run : Text.isHexRun number.toList = true) :
    Form [inQuotes plugin, "|", mark ++ number] (plugin ++ ("|" ++ number))

/-- What stands behind the digits of a decimal number: nothing, or a point and a fraction. -/
inductive Fraction (negative : Bool) (digits : List Char) : Phrases Number.Double
  /-- Nothing. -/
  | none : Fraction negative digits [] (.ofDecimal .double negative (.ofDigits digits []))
  /-- A point and the digits of a fraction. -/
  | some {fraction : String} (run : Text.isDecimal fraction.toList = true) :
    Fraction negative digits [".", fraction]
      (.ofDecimal .double negative (.ofDigits digits fraction.toList))

/-- A decimal number: digits behind their sign, and perhaps a fraction. -/
def number : Phrases Number.Double := fun words value =>
  ∃ negative digits behind, words = Number.signedDigits negative digits :: behind ∧
    Text.isDecimal digits = true ∧ Fraction negative digits behind value

/-- An integer of 64 bits. -/
def integer : Phrases Int := fun words value =>
  ∃ word, words = [word] ∧ Text.IsInteger word.toList value ∧ Reader.fitsInteger value = true

/-- A slot number, or zero. -/
def slot : Phrases Nat := fun words value =>
  ∃ word, words = [word] ∧ Text.IsNatural word.toList value ∧ Slot.isWritable value = true

end Phrases

namespace Reader

variable {α β : Type} {before : β → List String → Prop} {phrases : Phrases α}

/-- A reader of one word recognizes the words that spell its values. -/
theorem recognizes_single {next : String → Reader β} {spelled : String → β → Prop}
    (missing : (next "").Refuses)
    (each : ∀ word, (next word).Recognizes before fun words value =>
      words = [] ∧ spelled word value) :
    (Reader.next >>= next).Recognizes before fun words value =>
      ∃ word, words = [word] ∧ spelled word value := by
  refine (recognizes_next missing each).congr fun words value => ?_
  constructor
  · rintro ⟨word, _, rfl, rfl, held⟩
    exact ⟨word, rfl, held⟩
  · rintro ⟨word, rfl, held⟩
    exact ⟨word, [], rfl, rfl, held⟩

/-- A reader of one word that answers what the word stands for, when that is good. -/
theorem recognizes_word {next : String → Reader β} (read : String → Option β) (good : β → Bool)
    (fault other : String → Fault) (missing : read "" = none)
    (each : ∀ word, next word = (read word).elim (fail (fault word)) fun value =>
      if good value then pure value else fail (other word)) :
    (Reader.next >>= next).Recognizes Anywhere fun words value =>
      ∃ word, words = [word] ∧ read word = some value ∧ good value = true := by
  refine recognizes_single (by rw [each, missing]; exact refuses_fail _) fun word => ?_
  rw [each]
  cases read word with
  | none =>
    refine (refuses_fail _).recognizes.congr fun words value => ?_
    simp
  | some found =>
    by_cases held : good found = true
    · rw [Option.elim_some, if_pos held]
      refine (recognizes_pure found).congr fun words value => ?_
      constructor
      · rintro ⟨rfl, rfl⟩
        exact ⟨rfl, rfl, held⟩
      · rintro ⟨rfl, same, _⟩
        exact ⟨rfl, (Option.some.inj same).symm⟩
    · rw [Option.elim_some, if_neg held]
      refine (refuses_fail _).recognizes.congr fun words value => ⟨False.elim, ?_⟩
      rintro ⟨_, same, held'⟩
      exact held (Option.some.inj same ▸ held')

/-- The reader of strings recognizes the phrases of strings. -/
theorem recognizes_string : string.Recognizes Anywhere Phrases.string := by
  have word : string.Recognizes Anywhere _ :=
    recognizes_word Token.unquote? (fun _ => true)
      (fun found => if Token.opensString found then .unclosedString else .notString found)
      .notString rfl fun word => by cases Token.unquote? word <;> rfl
  refine word.congr fun words text => ?_
  simp [Token.unquote?_eq_some, Phrases.string]

/-- The reader of integers recognizes the phrases of integers. -/
theorem recognizes_integer : integer.Recognizes Anywhere Phrases.integer := by
  have word : integer.Recognizes Anywhere _ :=
    recognizes_word (fun found => Text.integer? found.toList) fitsInteger .integer .integer rfl
      fun word => by cases Text.integer? word.toList <;> rfl
  refine word.congr fun words value => ?_
  simp only [Phrases.integer, Text.integer?_eq_some]

/-- The reader of slots recognizes the phrases of slots. -/
theorem recognizes_slot : slot.Recognizes Anywhere Phrases.slot := by
  have word : slot.Recognizes Anywhere _ :=
    recognizes_word (fun found => Text.natural? found.toList) Slot.isWritable .slot .slot rfl
      fun word => by cases Text.natural? word.toList <;> rfl
  refine word.congr fun words value => ?_
  simp only [Phrases.slot, Text.natural?_eq_some]

/-- A form reference is recognized. -/
theorem recognizes_form : form.Recognizes Anywhere Phrases.Form := by
  have number (plugin : String) : (Reader.next >>= fun number =>
      require (Text.isHexNumber number) (.formNumber number) >>= fun _ =>
        pure s!"{plugin}|{Text.stripHexMark number}").Recognizes Anywhere _ :=
    recognizes_next ((refuses_require rfl).bind _) fun number =>
      (recognizes_pure _).require _ _
  have whole : form.Recognizes Anywhere _ :=
    recognizes_string.append fun plugin => ((number plugin).expect (by decide)).require _ _
  refine whole.congr fun words reference => ?_
  constructor
  · rintro ⟨plugin, _, _, rfl, rfl, named, _, rfl, word, _, rfl, hexadecimal, rfl, rfl⟩
    obtain ⟨mark, marked, spelled, run⟩ := Text.isHexNumber_iff.1 ⟨hexadecimal, rfl⟩
    have joined : s!"{plugin}|{Text.stripHexMark word}" =
        plugin ++ ("|" ++ Text.stripHexMark word) := by
      apply String.toList_inj.1
      simp [toString]
    generalize Text.stripHexMark word = bare at spelled run joined ⊢
    rw [joined, spelled]
    exact .mk (by simpa using named) marked run
  · rintro @⟨plugin, mark, number, named, marked, run⟩
    obtain ⟨hexadecimal, same⟩ := Text.isHexNumber_iff.2 ⟨mark, marked, rfl, run⟩
    refine ⟨plugin, _, _, rfl, rfl, by simpa using named, _, rfl, mark ++ number, _, rfl,
      hexadecimal, rfl, ?_⟩
    apply String.toList_inj.1
    simp [toString, same]

/-- A fraction is recognized where no point is left. -/
theorem recognizes_fraction (whole : String) (negative : Bool) (digits : List Char) :
    (accept "." >>= fun pointed =>
      if pointed then
        Reader.next >>= fun fraction =>
          require (Text.isDecimal fraction.toList) (.number s!"{whole}.{fraction}") >>= fun _ =>
            pure (.ofDecimal .double negative (.ofDigits digits fraction.toList))
      else pure (.ofDecimal .double negative (.ofDigits digits [])) :
        Reader Number.Double).Recognizes (NotAt ".") (Phrases.Fraction negative digits) := by
  have pointed : (Reader.next >>= fun fraction =>
      require (Text.isDecimal fraction.toList) (.number s!"{whole}.{fraction}") >>= fun _ =>
        pure (.ofDecimal .double negative (.ofDigits digits fraction.toList)) :
          Reader Number.Double).Recognizes (NotAt ".") _ :=
    recognizes_next ((refuses_require rfl).bind _) fun fraction => (recognizes_pure _).require _ _
  refine (pointed.choice (by decide) (recognizes_pure _) ?_).congr fun words value => ?_
  · rintro _ value left ⟨rfl, _⟩ other
    exact other
  · constructor
    · rintro (⟨_, rfl, fraction, _, rfl, run, rfl, rfl⟩ | ⟨rfl, rfl⟩)
      · exact .some run
      · exact .none
    · rintro (_ | run)
      · exact .inr ⟨rfl, rfl⟩
      · exact .inl ⟨_, rfl, _, _, rfl, run, rfl, rfl⟩

/-- A number is recognized where no point is left. -/
theorem recognizes_number : number.Recognizes (NotAt ".") Phrases.number := by
  have signed (whole : String) :=
    (recognizes_fraction whole (splitSign whole.toList).1 (splitSign whole.toList).2).require
      (Text.isDecimal (splitSign whole.toList).2) (.number whole)
  have whole : number.Recognizes (NotAt ".") _ :=
    recognizes_next ((refuses_require rfl).bind _) signed
  refine whole.congr fun words value => ?_
  constructor
  · rintro ⟨word, behind, rfl, run, spelled⟩
    exact ⟨_, _, behind, by rw [signedDigits_splitSign], run, spelled⟩
  · rintro ⟨negative, digits, behind, rfl, run, spelled⟩
    refine ⟨_, behind, rfl, ?_⟩
    rw [splitSign_signedDigits negative run]
    exact ⟨run, spelled⟩

/-- Items with a mark between any two are recognized when what is left starts with no mark. -/
theorem recognizes_separated {mark : String} {named : mark ≠ ""} {item : Reader α}
    {next : List α → Reader β} {others : List α → Phrases β}
    (items : item.Recognizes Anywhere phrases)
    (rest : ∀ values, (next values).Recognizes before (others values))
    (meets : ∀ values front value left, others values front value → before value left →
      NotAt mark values (front ++ left)) :
    (item >>= fun first => afterEach mark named item >>= fun behind =>
      next (first :: behind)).Recognizes before ((phrases.separated mark).bind others) := by
  have each : (afterEach mark named item).Recognizes (NotAt mark) _ := recognizes_afterEach items
  have behind (first : α) := each.bind (fun behind => rest (first :: behind))
    fun behind => meets (first :: behind)
  refine (items.append behind).congr fun words value => ?_
  constructor
  · rintro ⟨first, front, _, rfl, spelled, found, middle, last, rfl, spelled', tail⟩
    exact ⟨first :: found, front ++ middle, last, (List.append_assoc _ _ _).symm,
      ⟨first, found, front, middle, rfl, rfl, spelled, spelled'⟩, tail⟩
  · rintro ⟨_, _, last, rfl, ⟨first, found, front, middle, rfl, rfl, spelled, spelled'⟩, tail⟩
    exact ⟨first, front, middle ++ last, List.append_assoc _ _ _, spelled, found, middle, last, rfl,
      spelled', tail⟩

/-- Arguments are recognized up to and with the closing parenthesis. -/
theorem recognizes_arguments {item : Reader α} (items : item.Recognizes Anywhere phrases) :
    (arguments item).Recognizes Anywhere fun words values =>
      ∃ inside, words = inside ++ [")"] ∧ phrases.separated "," inside values := by
  have closed (values : List α) : (expect ")" >>= fun _ => pure values).Recognizes Anywhere _ :=
    (recognizes_pure values).expect (by decide)
  have whole : (arguments item).Recognizes Anywhere _ := recognizes_separated items closed (by
    rintro values _ _ left ⟨_, rfl, rfl, rfl⟩ _
    simp [NotAt])
  refine whole.congr fun words values => ?_
  constructor
  · rintro ⟨_, inside, _, rfl, spelled, _, rfl, rfl, rfl⟩
    exact ⟨inside, rfl, spelled⟩
  · rintro ⟨inside, rfl, spelled⟩
    exact ⟨values, inside, _, rfl, spelled, _, rfl, rfl, rfl⟩

end Reader

end Syntax

end FormPatch
