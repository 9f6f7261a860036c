import FormPatch.OrderedMap
import FormPatch.Record

/-!
# The form store

A store holds the active plugins in load order and all forms in key order. A form is live when
its plugin is active; only live forms can be found by their reference.
-/

namespace FormPatch

/-- The questions that guards ask. -/
structure Host where
  /-- Whether a plugin is active. -/
  isActive : String → Bool
  /-- Whether a reference names a live form. -/
  isLive : FormReference → Bool

/-- Active plugins and forms. -/
structure Store where
  /-- The active plugins in load order. -/
  plugins : List String
  /-- The forms. -/
  forms : OrderedMap FormReference Form

namespace Store

/-- The store without plugins and forms. -/
def empty : Store := ⟨[], .empty⟩

instance : Inhabited Store := ⟨empty⟩

/-- Whether a plugin is active; the case of letters does not matter. -/
def isActive (store : Store) (plugin : String) : Bool := store.plugins.any (Text.agree plugin)

/-- Whether a reference names a form of an active plugin. -/
def isLive (store : Store) (reference : FormReference) : Bool :=
  store.isActive reference.plugin && store.forms.contains reference

/-- What a store answers to guards. -/
def host (store : Store) : Host := ⟨store.isActive, store.isLive⟩

/-- Appends a plugin to the load order unless it is active. -/
def activate (store : Store) (plugin : String) : Store :=
  if store.isActive plugin then store else { store with plugins := store.plugins ++ [plugin] }

/-- Takes a plugin out of the load order. -/
def deactivate (store : Store) (plugin : String) : Store :=
  { store with plugins := store.plugins.filter fun active => !Text.agree plugin active }

/-- Puts a form under a reference, in the place of what an equal reference had. -/
def insert (store : Store) (reference : FormReference) (form : Form) : Store :=
  { store with forms := store.forms.insert reference form }

/-- Takes a form out. -/
def erase (store : Store) (reference : FormReference) : Store :=
  { store with forms := store.forms.erase reference }

/-- The form under a reference. -/
def get? (store : Store) (reference : FormReference) : Option Form := store.forms.get? reference

/-- Changes the form under a reference. -/
def modify (store : Store) (reference : FormReference) (change : Form → Form) : Store :=
  { store with forms := store.forms.modify reference change }

/-- The live form that a text names. -/
def resolve (store : Store) (text : String) : Except Failure FormReference := do
  let reference ← FormReference.parse text
  if store.isLive reference then pure reference else throw (.unknownForm text)

/-- The live form of one record type that a text names. -/
def resolveTyped (store : Store) (text : String) (expected : RecordType) :
    Except Failure FormReference := do
  let reference ← store.resolve text
  match store.get? reference with
  | none => throw (.unknownForm text)
  | some form =>
    if form.record.type = expected then pure reference
    else throw (.wrongType text expected.name form.record.type.name)

/-- The forms of one record type, in key order. -/
def ofType (store : Store) (type : RecordType) : List (FormReference × Form) :=
  store.forms.entries.filter fun entry => entry.2.record.type == type

/-- The first form with an editor ID, in key order. -/
def findCalled? (store : Store) (editorId : String) : Option FormReference :=
  (store.forms.entries.find? fun entry => entry.2.isCalled editorId).map Prod.fst

/-- The armors that carry a keyword, in key order. -/
def armorsWith (store : Store) (keyword : FormReference) : List FormReference :=
  ((store.ofType .armor).filter fun entry =>
    entry.2.record.armor?.any fun armor => armor.hasKeyword keyword).map Prod.fst

end Store

end FormPatch
