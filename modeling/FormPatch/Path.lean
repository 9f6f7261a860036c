import FormPatch.Text.Fold

/-!
# Paths

A path is kept as it was written. Its components are what is left when repeated separators, the
separators at its end and the dots that change nothing are dropped; paths are equal, and stand in
order, as their components.
-/

namespace FormPatch

/-- A path as it was written. -/
structure Path where
  /-- The text. -/
  text : String
deriving DecidableEq, Repr

namespace Path

/-- One step of a path. -/
inductive Component where
  /-- The root, which only comes first. -/
  | root
  /-- The working directory, which only comes first. -/
  | here
  /-- The directory above. -/
  | parent
  /-- An entry of the directory reached so far. -/
  | name (text : String)
deriving DecidableEq, Repr

namespace Component

/-- Kinds of components stand in this order. -/
def rank : Component → Nat
  | root => 0
  | here => 1
  | parent => 2
  | name _ => 3

/-- The text that orders components of one kind. -/
def label : Component → String
  | name text => text
  | _ => ""

/-- Components compare by kind, and names by their characters. -/
def order : Component → Component → Ordering :=
  compareLex (compareOn rank) (compareOn label)

instance : Ord Component := ⟨order⟩

instance : Std.TransOrd Component :=
  inferInstanceAs (Std.TransCmp (compareLex (compareOn rank) (compareOn label)))

end Component

/-- The runs between separators. -/
def split : List Char → List (List Char)
  | [] => [[]]
  | character :: rest =>
    match split rest with
    | [] => [[]]
    | run :: runs => if character = '/' then [] :: run :: runs else (character :: run) :: runs

/-- The component that a run between separators stands for, unless it changes nothing. -/
def stepOf? (run : List Char) : Option Component :=
  match run with
  | [] => none
  | ['.'] => none
  | ['.', '.'] => some .parent
  | characters => some (.name (String.ofList characters))

/-- The components of a path. -/
def components (path : Path) : List Component :=
  let runs := split path.text.toList
  let steps := runs.filterMap stepOf?
  match runs with
  | [] :: _ :: _ => .root :: steps
  | ['.'] :: _ => .here :: steps
  | _ => steps

/-- Whether a path starts at the root. -/
def isAbsolute (path : Path) : Bool := path.text.toList.head? == some '/'

/-- Whether two paths have the same components. -/
def same (left right : Path) : Bool := left.components == right.components

/-- Paths compare component by component. -/
def order (left right : Path) : Ordering := compare left.components right.components

/-- A path taken from a directory; an absolute one stays as it is. -/
def join (directory path : Path) : Path :=
  if path.isAbsolute then path
  else
    match directory.text.toList.getLast? with
    | none => path
    | some '/' => ⟨directory.text ++ path.text⟩
    | some _ => ⟨directory.text ++ "/" ++ path.text⟩

/-- The last component, if it is a name. -/
def fileName? (path : Path) : Option String :=
  match path.components.getLast? with
  | some (.name text) => some text
  | _ => none

/-- The text after the last dot of a file name. A name has no extension when it has no dot or when
its only dot comes first. -/
def extension? (path : Path) : Option String := do
  let name ← path.fileName?
  match name.toList.reverse.span (· != '.') with
  | (after, '.' :: _ :: _) => some (String.ofList after.reverse)
  | _ => none

end Path

end FormPatch
