import FormPatch.Number.Binary
import FormPatch.Slots
import FormPatch.Syntax.Reader

/-!
# Written values

The values that statements and guards are made of: string literals, form references, decimal
numbers, integers and slot numbers, and how a form reference is written back.
-/

namespace FormPatch.Syntax

namespace Reader

/-- A string literal; answers the text between its quotes. -/
def string : Reader String := do
  let found ← next
  match Token.unquote? found with
  | some text => pure text
  | none => fail (if Token.opensString found then .unclosedString else .notString found)

/-- A form reference `"plugin"|number`; answers `plugin|number` without a hexadecimal mark. -/
def form : Reader String := do
  let plugin ← string
  require (plugin != "") .emptyPlugin
  expect "|"
  let number ← next
  require (Text.isHexNumber number) (.formNumber number)
  pure s!"{plugin}|{Text.stripHexMark number}"

/-- The sign of a written number and its digits. -/
def splitSign : List Char → Bool × List Char
  | '-' :: digits => (true, digits)
  | digits => (false, digits)

/-- A decimal number: a whole part, which may carry a minus sign, and perhaps a point and a
fraction. A number past the finite ones is read as infinity. -/
def number : Reader Number.Double := do
  let whole ← next
  let (negative, digits) := splitSign whole.toList
  require (Text.isDecimal digits) (.number whole)
  if ← accept "." then
    let fraction ← next
    require (Text.isDecimal fraction.toList) (.number s!"{whole}.{fraction}")
    pure (.ofDecimal .double negative (.ofDigits digits fraction.toList))
  else pure (.ofDecimal .double negative (.ofDigits digits []))

/-- The integers that fit 64 bits. -/
def fitsInteger (value : Int) : Bool :=
  Int64.minValue.toInt ≤ value && value ≤ Int64.maxValue.toInt

/-- An integer of 64 bits. -/
def integer : Reader Int := do
  let found ← next
  match Text.integer? found.toList with
  | some value => if fitsInteger value then pure value else fail (.integer found)
  | none => fail (.integer found)

/-- A slot number, or zero for no slot. -/
def slot : Reader Nat := do
  let found ← next
  match Text.natural? found.toList with
  | some value => if Slot.isWritable value then pure value else fail (.slot found)
  | none => fail (.slot found)

/-- Items between commas, at least one, up to and with a closing parenthesis. -/
def arguments {α : Type} (item : Reader α) : Reader (List α) := do
  let first ← item
  let others ← afterEach "," (by decide) item
  expect ")"
  pure (first :: others)

end Reader

/-- Splits at the last bar. -/
def splitLastBar (text : String) : Option (String × String) :=
  match text.toList.reverse.span (· != '|') with
  | (_, []) => none
  | (after, _ :: before) => some (String.ofList before.reverse, String.ofList after.reverse)

/-- A form reference as it is written in a configuration: the plugin stands in quotes. -/
def formText (reference : String) : String :=
  match splitLastBar reference with
  | some (plugin, number) => s!"\"{plugin}\"|{number}"
  | none => s!"\"{reference}\""

/-- Four blanks for each level of nesting. -/
def indent (level : Nat) : String :=
  String.ofList (List.replicate (4 * level) ' ')

end FormPatch.Syntax
