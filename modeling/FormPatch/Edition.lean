import FormPatch.Page.Removal
import FormPatch.Page.Sharing
import FormPatch.PatchFile

/-!
# Editions of a store

An edition is a store together with the pages that the references to its forms lie on. Editions of
one history share the pages that were not edited in between, and forms on a shared page count as the
same without a look at them. So a number that equals nothing, not even itself, tells two editions
apart only where an edit came near it.

Whether a patch left its store unchanged is asked of the editions before and behind it. An edition
that a history leads to holds the store of that history, and the keys of this store on its pages.
-/

namespace FormPatch

/-- A store, the pages of its references and how many edits led to it. -/
structure Edition where
  /-- The store. -/
  store : Store
  /-- The pages. -/
  pages : Pages FormReference
  /-- The number of edits. -/
  edits : Nat

namespace Edition

/-- The first edition, without plugins and forms. -/
def empty : Edition := ⟨.empty, .empty, 0⟩

instance : Inhabited Edition := ⟨empty⟩

/-- The edition after one edit. -/
def edit (edition : Edition) (change : Store → Store)
    (touch : Nat → Pages FormReference → Pages FormReference) : Edition :=
  ⟨change edition.store, touch (edition.edits + 1) edition.pages, edition.edits + 1⟩

/-- Puts a form under a reference. -/
def insert (edition : Edition) (reference : FormReference) (form : Form) : Edition :=
  edition.edit (·.insert reference form) (Pages.insert · reference)

/-- Takes a form out. -/
def erase (edition : Edition) (reference : FormReference) : Edition :=
  edition.edit (·.erase reference) (Pages.erase · reference)

/-- Opens the form under a reference, whether or not there is one, and changes it. -/
def modify (edition : Edition) (reference : FormReference) (change : Form → Form) : Edition :=
  edition.edit (·.modify reference change) (Pages.visit · reference)

/-- The edition with other plugins. -/
def withPlugins (edition : Edition) (change : Store → Store) : Edition :=
  { edition with store := change edition.store }

/-- The edition with another store in its place, of which it shares no page. -/
def reload (edition : Edition) (store : Store) : Edition :=
  edition.edit (fun _ => store) fun edit _ => .ofKeys edit (store.forms.entries.map Prod.fst)

/-- The edition after a file was applied, and what was reported. -/
def apply (edition : Edition) (file : PatchFile) : Edition × List Diagnostic :=
  let applied := file.apply edition.store
  let opened := applied.opened.foldl (fun edition reference => edition.modify reference id) edition
  ({ opened with store := applied.store }, applied.reports)

/-- Whether two editions of one history are the same: equal plugins, equally many forms, and under
equal references forms that agree or lie on a shared page. -/
def same (left right : Edition) : Bool :=
  let formsAgree (reference : FormReference) : Bool :=
    match left.store.get? reference, right.store.get? reference with
    | some one, some other => one.agrees other
    | _, _ => false
  left.store.plugins == right.store.plugins &&
    left.store.forms.size == right.store.forms.size &&
    Outline.agree formsAgree left.pages.outline right.pages.outline

/-- An edition is the same as itself, whatever numbers its forms hold. -/
theorem same_self (edition : Edition) : edition.same edition = true := by
  simp [same, Pages.agree_outline]

end Edition

end FormPatch
