import FormPatch.FileTree
import FormPatch.Log
import FormPatch.Record
import FormPatch.Snapshot

/-!
# Where configuration files lie

The files of a record type lie at any depth in a directory of their own and carry the configured
extension. They are found in one order, whatever the order in which directories hold them.
-/

namespace FormPatch

/-- Where configuration files lie, and how many diagnostics are shown. -/
structure Loader where
  /-- The directory of all data. -/
  dataDirectory : Path := ⟨"Data"⟩
  /-- The name of the project's directory in it. -/
  project : String := "formcfg"
  /-- The extension of configuration files. -/
  extension : String := "cfg"
  /-- How many diagnostics are shown. -/
  capacity : Nat := 10000
deriving Repr

namespace Loader

/-- The directory of the project. -/
def projectDirectory (loader : Loader) : Path := loader.dataDirectory.join ⟨loader.project⟩

/-- The directory of a record type. -/
def recordDirectory (loader : Loader) (type : RecordType) : Path :=
  loader.projectDirectory.join ⟨type.name⟩

/-- Whether a path carries the extension, in letters of any case. -/
def accepts (loader : Loader) (path : Path) : Bool :=
  path.extension?.any (Text.agree loader.extension)

end Loader

/-- What a search for configuration files comes to. -/
structure Discovery where
  /-- The files. -/
  files : List Path := []
  /-- What was reported about directories that cannot be read. -/
  reports : List Diagnostic := []

namespace Discovery

/-- Both searches, one after the other. -/
def append (left right : Discovery) : Discovery :=
  ⟨left.files ++ right.files, left.reports ++ right.reports⟩

instance : Append Discovery := ⟨append⟩

/-- The search that ends at a directory which cannot be read: nothing is found, and a warning says
so. -/
def unreadable (directory : Path) (fault : FileFault) : Discovery where
  reports :=
    [{ severity := .warning
       message := s!"failed to read directory {directory.text}: {fault.message}" }]

/-- The same files in order. -/
def sorted (discovery : Discovery) : Discovery :=
  { discovery with
    files := discovery.files.mergeSort fun left right => left.order right != .gt }

end Discovery

namespace Loader

mutual

/-- The configuration files at or below an entry. Links to files count as files; links to
directories are not followed. The path of a directory must be one that can be opened. -/
def filesAt (loader : Loader) (tree : FileTree) (path : Path) : Entry → Discovery
  | .file _ => { files := if loader.accepts path then [path] else [] }
  | .link _ => { files := if tree.isFile path && loader.accepts path then [path] else [] }
  | .directory entries =>
    match tree.open? path with
    | .error fault => .unreadable path fault
    | .ok _ => filesIn loader tree path entries

/-- The configuration files at or below the entries of a directory. -/
def filesIn (loader : Loader) (tree : FileTree) (directory : Path) :
    List (String × Entry) → Discovery
  | [] => {}
  | (name, entry) :: rest =>
    filesAt loader tree (directory.join ⟨name⟩) entry ++ filesIn loader tree directory rest

end

/-- The configuration files of a record type, in order. Where its directory is not to be found
there are none. -/
def discover (loader : Loader) (tree : FileTree) (type : RecordType) : Discovery :=
  let directory := loader.recordDirectory type
  (loader.filesIn tree directory (tree.list directory)).sorted

/-- The log of a session. -/
def log (loader : Loader) : Log := .ofCapacity loader.capacity

end Loader

namespace Snapshot

/-- Reads a store from a snapshot file. -/
def load (tree : FileTree) (path : Path) : Except Failure Store := do
  let refuse (action : String) (fault : FileFault) : Failure :=
    .inputOutput s!"failed to {action} file '{path.text}': {fault.message}"
  let entry ← (tree.open? path).mapError (refuse "open")
  let content ← (FileTree.contentOf entry).mapError (refuse "read")
  (decode content).mapError Fault.failure

/-- Writes a store to a snapshot file. -/
def save (tree : FileTree) (path : Path) (store : Store) : Except Failure FileTree :=
  (tree.write path (encode store)).mapError fun fault =>
    .inputOutput s!"failed to create file '{path.text}': {fault.message}"

end Snapshot

end FormPatch
