import FormPatch.Path

/-!
# File trees

A file tree holds directories, files and symbolic links, and knows the directory from which paths
without a root are taken. Paths are resolved step by step: links are followed wherever a path
leads through one, a limited number of times, and a step upwards leaves the directory that was
reached, not the one that was written.
-/

namespace FormPatch

/-- What a directory holds under a name. -/
inductive Entry where
  /-- A file and its content. -/
  | file (content : List UInt8)
  /-- A symbolic link and the path that it stands for. -/
  | link (target : Path)
  /-- A directory and what it holds. -/
  | directory (entries : List (String × Entry))

namespace Entry

/-- The entry that names lead to, without following links. -/
def at? : List String → Entry → Option Entry
  | [], entry => some entry
  | name :: rest, directory entries => (entries.lookup name).bind (at? rest)
  | _ :: _, _ => none

/-- The entry with another one where the names lead to; directories on the way are made. -/
def put (new : Entry) : List String → Entry → Entry
  | [], _ => new
  | name :: rest, directory entries =>
    if (entries.lookup name).isSome then
      directory (entries.map fun (known, entry) =>
        if known = name then (known, put new rest entry) else (known, entry))
    else directory (entries ++ [(name, put new rest (directory []))])
  | _ :: _, other => other

end Entry

/-- Why the file system refuses. -/
inductive FileFault where
  /-- A name on the way leads to nothing. -/
  | notFound
  /-- A step goes on from something that is no directory. -/
  | notDirectory
  /-- A directory stands where a file must. -/
  | isDirectory
  /-- Too many links were followed. -/
  | tooManyLinks
  /-- A name or a path is too long. -/
  | nameTooLong
  /-- A path holds a character that ends it for the system. -/
  | nul
  /-- A file that must be text is not valid text. -/
  | notText
deriving DecidableEq, Repr

/-- The wording of a fault. -/
def FileFault.message : FileFault → String
  | notFound => "No such file or directory (os error 2)"
  | notDirectory => "Not a directory (os error 20)"
  | isDirectory => "Is a directory (os error 21)"
  | tooManyLinks => "Too many levels of symbolic links (os error 40)"
  | nameTooLong => "File name too long (os error 36)"
  | nul => "file name contained an unexpected NUL byte"
  | notText => "stream did not contain valid UTF-8"

/-- Directories, files and links. -/
structure FileTree where
  /-- The root directory. -/
  root : Entry
  /-- The names that lead from the root to the working directory. -/
  home : List String

namespace FileTree

/-- How many links one path may lead through. -/
def mostLinks : Nat := 40

/-- How many bytes a name may have. -/
def longestName : Nat := 255

/-- How many bytes a path may have. -/
def longestPath : Nat := 4095

/-- The tree that holds no more than its working directory, to which names lead from the root. -/
def ofHome (names : List String) : FileTree :=
  ⟨Entry.put (.directory []) names (.directory []), names⟩

/-- Whether a path ends with a separator and so can only stand for a directory. -/
def endsOpen (path : Path) : Bool := path.text.toList.getLast? == some '/'

/-- The steps of a path; a separator at the end leaves an empty step, which stays in a directory. -/
def steps (path : Path) : List String :=
  let names := ((Path.split path.text.toList).filter (!·.isEmpty)).map String.ofList
  if endsOpen path then names ++ [""] else names

/-- The directory from which a path is taken, if it is met in the given one. -/
def startOf (here : List String) (path : Path) : List String :=
  if path.isAbsolute then [] else here

/-- Where a path leads: names without links from the root, and what is there. Only the last name
may lead to nothing. -/
structure Place where
  /-- The names. -/
  names : List String
  /-- What is there. -/
  entry : Option Entry

/-- Takes the steps of a path from a directory. Where a file is to be made, a last name behind which
a separator stands is refused, even one that a link ends with. -/
def walk (tree : FileTree) (making : Bool) (links : Nat) (here : List String) :
    List String → Except FileFault Place
  | [] => .ok ⟨here, tree.root.at? here⟩
  | name :: rest =>
    if name = "" ∨ name = "." then tree.walk making links here rest
    else if name = ".." then tree.walk making links here.dropLast rest
    else if making ∧ rest = [""] then .error .isDirectory
    else if longestName < name.utf8ByteSize then .error .nameTooLong
    else
      match tree.root.at? (here ++ [name]) with
      | none => if rest = [] then .ok ⟨here ++ [name], none⟩ else .error .notFound
      | some (.directory _) => tree.walk making links (here ++ [name]) rest
      | some (.file content) =>
        if rest = [] then .ok ⟨here ++ [name], some (.file content)⟩ else .error .notDirectory
      | some (.link target) =>
        match links with
        | 0 => .error .tooManyLinks
        | links + 1 => tree.walk making links (startOf here target) (steps target ++ rest)
termination_by todo => (links, todo.length)

/-- Takes the steps of a path from where it starts. -/
def follow (tree : FileTree) (making : Bool) (path : Path) : Except FileFault Place :=
  if path.text = "" then .error .notFound
  else if path.text.toList.contains '\x00' then .error .nul
  else if longestPath < path.text.utf8ByteSize then .error .nameTooLong
  else tree.walk making mostLinks (startOf tree.home path) (steps path)

/-- Where a path leads. -/
def find (tree : FileTree) (path : Path) : Except FileFault Place := tree.follow false path

/-- The file or directory that a path leads to. -/
def open? (tree : FileTree) (path : Path) : Except FileFault Entry := do
  match (← tree.find path).entry with
  | none => throw .notFound
  | some entry => pure entry

/-- The content of what was opened, which must be a file. -/
def contentOf : Entry → Except FileFault (List UInt8)
  | .file content => .ok content
  | _ => .error .isDirectory

/-- The content of the file that a path leads to. -/
def read (tree : FileTree) (path : Path) : Except FileFault (List UInt8) := do
  contentOf (← tree.open? path)

/-- The content of the text file that a path leads to. -/
def readText (tree : FileTree) (path : Path) : Except FileFault String := do
  match String.fromUTF8? ⟨(← tree.read path).toArray⟩ with
  | none => throw .notText
  | some text => pure text

/-- Whether a path leads to a file. -/
def isFile (tree : FileTree) (path : Path) : Bool :=
  match tree.open? path with
  | .ok (.file _) => true
  | _ => false

/-- What the directory holds that a path leads to, or nothing when it leads to no directory. -/
def list (tree : FileTree) (path : Path) : List (String × Entry) :=
  match tree.open? path with
  | .ok (.directory entries) => entries
  | _ => []

/-- The tree with something else at a place. -/
def putAt (tree : FileTree) (place : Place) (entry : Entry) : FileTree :=
  { tree with root := Entry.put entry place.names tree.root }

/-- The tree after a file was written; a file that is there loses its content. -/
def write (tree : FileTree) (path : Path) (content : List UInt8) : Except FileFault FileTree := do
  let place ← tree.follow true path
  match place.entry with
  | some (.directory _) => throw .isDirectory
  | _ => pure (tree.putAt place (.file content))

/-- The tree with the directory of a path and those on the way, as far as nothing stands in their
place. -/
def makeDirectories (tree : FileTree) (path : Path) : FileTree :=
  let base : Path := if path.isAbsolute then ⟨"/"⟩ else ⟨""⟩
  let grow (state : FileTree × Path) (name : String) : FileTree × Path :=
    let next := state.2.join ⟨name⟩
    match state.1.find next with
    | .ok ⟨names, none⟩ => (state.1.putAt ⟨names, none⟩ (.directory []), next)
    | _ => (state.1, next)
  ((steps path).foldl grow (tree, base)).1

/-- The path of the directory that holds the last name of a path. -/
def parentOf (path : Path) : Path :=
  let names := (steps path).dropLast
  ⟨(if path.isAbsolute then "/" else "") ++ "/".intercalate names⟩

/-- The tree with an entry under a path, in the place of what the path leads to. -/
def mount (tree : FileTree) (path : Path) (entry : Entry) : FileTree :=
  let grown := tree.makeDirectories (parentOf path)
  match grown.find path with
  | .ok place => grown.putAt place entry
  | .error _ => grown

/-- The tree with a symbolic link. -/
def makeLink (tree : FileTree) (path target : Path) : FileTree :=
  let parent := parentOf path
  let directory := tree.find (if parent.text = "" then ⟨"."⟩ else parent)
  match directory, (steps path).getLast? with
  | .ok ⟨names, some (.directory _)⟩, some name =>
    tree.putAt ⟨names ++ [name], none⟩ (.link target)
  | _, _ => tree

end FileTree

end FormPatch
