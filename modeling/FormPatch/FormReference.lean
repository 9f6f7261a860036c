import FormPatch.Failure
import FormPatch.Syntax.Value

/-!
# Form references

A form is named by the plugin that defines it and by its number within that plugin. The case of
ASCII letters in the plugin's name does not matter: references that differ only there are the
same key, but each keeps the spelling it came with.

Main statement: two references compare equal exactly when they are the same key.
-/

namespace FormPatch

/-- What takes in texts and numbers one after the other, to tell values apart quickly. -/
structure Hasher (σ : Type) where
  /-- The state once a text has been taken in. -/
  text : String → σ → σ
  /-- The state once a number has been taken in. -/
  number : UInt32 → σ → σ

/-- A form's name: a plugin and a number local to it. -/
structure FormReference where
  /-- The file name of the plugin, as it was spelled. -/
  plugin : String
  /-- The number within the plugin. -/
  id : UInt32
deriving DecidableEq, Repr

namespace FormReference

/-- What identifies a form: the folded plugin name and the number. -/
def key (reference : FormReference) : String × UInt32 := (Text.fold reference.plugin, reference.id)

/-- Whether two references name one form. -/
def same (left right : FormReference) : Bool := left.key == right.key

/-- References compare by folded plugin name, then by number. -/
def order : FormReference → FormReference → Ordering :=
  compareLex (compareOn fun reference => reference.key.1)
    (compareOn fun reference => reference.key.2)

instance : Ord FormReference := ⟨order⟩

instance : Std.TransOrd FormReference :=
  inferInstanceAs (Std.TransCmp (compareLex
    (compareOn fun reference : FormReference => reference.key.1)
    (compareOn fun reference : FormReference => reference.key.2)))

/-- References compare equal exactly when they name one form. -/
theorem compare_eq_iff {left right : FormReference} :
    compare left right = .eq ↔ left.same right = true := by
  change order left right = .eq ↔ _
  simp [order, compareLex, compareOn, same, Prod.ext_iff, Ordering.then_eq_eq]

/-- A hasher's state once it has taken in a reference: the folded plugin name, then the number. -/
def hash {σ : Type} (hasher : Hasher σ) (reference : FormReference) (state : σ) : σ :=
  hasher.number reference.id (hasher.text (Text.fold reference.plugin) state)

/-- The written form: the plugin, a bar and the number in hexadecimal capitals. -/
def text (reference : FormReference) : String :=
  s!"{reference.plugin}|{String.ofList (Text.hexText reference.id.toNat)}"

/-- Reads a reference: the plugin is what stands before the last bar, and must not be empty; the
number after it is hexadecimal, with or without a mark, and fits 32 bits. -/
def parse? (text : String) : Option FormReference := do
  let (plugin, number) ← Syntax.splitLastBar text
  let value := Text.valueOf 16 (Text.dropHexMark number.toList)
  if plugin != "" && Text.isHexNumber number && value < UInt32.size then
    some ⟨plugin, UInt32.ofNat value⟩
  else none

/-- Reads a reference, or says why there is none. -/
def parse (text : String) : Except Failure FormReference :=
  match parse? text with
  | some reference => .ok reference
  | none => .error (.unknownForm s!"malformed form reference: {text}")

end FormReference

end FormPatch
