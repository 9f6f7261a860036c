import FormPatch.CommandLine

/-!
# The program

The one module that meets the real file system. It copies what a call reads into a file tree, lets
the command line work on that tree, prints the answer and writes the file that was saved.
-/

namespace FormPatch.Program

/-- Whether a path leads to a real directory. -/
def isDirectory (path : Path) : IO Bool := do
  if path.text = "" then pure false else ((← IO.currentDir) / path.text).isDir

/-- Whether a path leads to anything real. -/
def isThere (path : Path) : IO Bool := do
  if path.text = "" then pure false else ((← IO.currentDir) / path.text).pathExists

/-- The content of a real file. -/
def contentOf (path : Path) : IO (List UInt8) := do
  let content ← IO.FS.readBinFile ((← IO.currentDir) / path.text)
  pure content.data.toList

/-- What a real directory holds. Links to directories are left out, since no search follows them. -/
partial def entriesOf (directory : Path) : IO (List (String × Entry)) := do
  let found ← ((← IO.currentDir) / directory.text).readDir
  let entries ← found.toList.mapM fun item => do
    let path := directory.join ⟨item.fileName⟩
    match (← item.path.symlinkMetadata).type with
    | .dir => do
      let below ← entriesOf path
      pure [(item.fileName, Entry.directory below)]
    | .file | .symlink =>
      if (← item.path.isDir) || !(← item.path.pathExists) then pure []
      else do
        let content ← contentOf path
        pure [(item.fileName, Entry.file content)]
    | .other => pure []
  pure entries.flatten

/-- The tree with a copy of what a path leads to. -/
def copyFrom (tree : FileTree) (path : Path) : IO FileTree := do
  if ← isDirectory path then
    let entries ← entriesOf path
    pure (tree.mount path (.directory entries))
  else if ← isThere path then
    let content ← contentOf path
    pure (tree.mount path (.file content))
  else pure tree

/-- The tree with the directories that decide whether a file can be written under a path. -/
def copyTarget (tree : FileTree) (path : Path) : IO FileTree := do
  let parent := FileTree.parentOf path
  if ← isDirectory path then pure (tree.makeDirectories path)
  else if ← isDirectory parent then pure (tree.makeDirectories parent)
  else pure tree

/-- The part of the real file system that a call can meet. -/
def copyFor (arguments : List String) : IO FileTree := do
  let home := FileTree.steps ⟨(← IO.currentDir).toString⟩
  let empty := FileTree.ofHome home
  match CommandLine.parse arguments with
  | .error _ => pure empty
  | .ok options => do
    let tree ← options.sources.foldlM copyFrom empty
    ((options.save.map Path.mk).toList).foldlM copyTarget tree

/-- Writes the file that a call saved. -/
def writeSaved (result : CommandLine.Result) : IO Unit := do
  match result.saved with
  | none => pure ()
  | some path =>
    match result.tree.read path with
    | .error _ => pure ()
    | .ok content =>
      IO.FS.writeBinFile ((← IO.currentDir) / path.text) ⟨content.toArray⟩

end FormPatch.Program

open FormPatch in
/-- Runs a call of the program on the real file system. -/
def main (arguments : List String) : IO UInt32 := do
  let result := CommandLine.run arguments (← Program.copyFor arguments)
  IO.print result.output
  Program.writeSaved result
  IO.eprint result.errors
  pure (UInt32.ofNat result.exit)
