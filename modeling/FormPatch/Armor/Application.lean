import FormPatch.Application
import FormPatch.Armor.Patch

/-!
# Applying armor patches

The armors that a patch edits are found before the first edit. On each of them the edits are made
in order; an edit that fails changes nothing and is reported, and the next one is made.
-/

namespace FormPatch

namespace Armor

/-- Attaches a keyword unless the armor carries it. -/
def attach (armor : Armor) (keyword : FormReference) : Armor :=
  if armor.hasKeyword keyword then armor
  else { armor with keywords := armor.keywords ++ [keyword] }

/-- Detaches keywords. -/
def detach (armor : Armor) (keywords : List FormReference) : Armor :=
  { armor with keywords := armor.keywords.filter fun carried => !keywords.any carried.same }

end Armor

namespace ArmorOperation

/-- The greatest rating or weight that can be given. -/
def mostStat : Nat := 100000

/-- A rating or weight to give, as far as it lies in its range. -/
def checkStat (what : String) (value : Number.Double) : Except Failure Number.Single :=
  if value.isWithin mostStat then .ok (value.convert .single)
  else .error (.outOfRange what value.text 0 mostStat)

/-- A value to give, as far as it lies in its range. -/
def checkValue (value : Int) : Except Failure UInt32 :=
  if 0 ≤ value ∧ value < UInt32.size then .ok (UInt32.ofNat value.toNat)
  else .error (.outOfRange "value" (toString value) 0 (UInt32.size - 1))

/-- The texts that an edit refers to keywords by. -/
def references : ArmorOperation → List String
  | addKeywords references => references
  | removeKeywords references => references
  | _ => []

/-- An armor after an edit, given the keywords that the edit refers to. -/
def edit (operation : ArmorOperation) (keywords : List FormReference) (armor : Armor) :
    Except Failure Armor :=
  match operation with
  | setSlots slots => .ok { armor with slots := slots }
  | addSlots slots => .ok { armor with slots := armor.slots ||| slots }
  | removeSlots slots => .ok { armor with slots := armor.slots &&& ~~~slots }
  | clearSlots => .ok { armor with slots := 0 }
  | setFullName name => .ok { armor with fullName := name }
  | setRating rating => do
    let checked ← checkStat "armor rating" rating
    pure { armor with rating := checked }
  | setWeight weight => do
    let checked ← checkStat "weight" weight
    pure { armor with weight := checked }
  | setValue value => do
    let checked ← checkValue value
    pure { armor with value := checked }
  | addKeywords _ => .ok (keywords.foldl Armor.attach armor)
  | removeKeywords _ => .ok (armor.detach keywords)
  | clearKeywords => .ok { armor with keywords := [] }

/-- The armor under a reference. -/
def armorAt (store : Store) (reference : FormReference) : Except Failure Armor :=
  match store.get? reference with
  | none => .error (.unknownForm reference.text)
  | some form =>
    match form.record with
    | .armor armor => .ok armor
    | other => .error (.wrongType reference.text RecordType.armor.name other.type.name)

/-- Makes an edit on the armor under a reference. The keywords that the edit refers to must all
resolve before the armor is opened. -/
def apply (target : FormReference) (operation : ArmorOperation) (store : Store) : Applied :=
  match operation.references.mapM fun reference => store.resolveTyped reference .keyword with
  | .error failure => .refused store .armor failure []
  | .ok keywords =>
    match armorAt store target >>= operation.edit keywords with
    | .error failure => .refused store .armor failure [target]
    | .ok armor =>
      ⟨store.modify target fun form => { form with record := .armor armor }, [], [target]⟩

end ArmorOperation

namespace ArmorPatch

/-- The armors that a patch edits. -/
def targets (patch : ArmorPatch) (store : Store) : Except Failure (List FormReference) := do
  match patch.filter with
  | .form reference =>
    let target ← store.resolveTyped reference .armor
    pure [target]
  | .keyword reference =>
    let keyword ← store.resolveTyped reference .keyword
    pure (store.armorsWith keyword)

/-- Applies a patch, target by target and edit by edit. -/
def apply (patch : ArmorPatch) (store : Store) : Applied :=
  match patch.targets store with
  | .error failure => .refused store .armor failure []
  | .ok targets =>
    Applied.forEach targets
      (fun target => Applied.forEach patch.operations (ArmorOperation.apply target)) store

end ArmorPatch

end FormPatch
