import FormPatch.Session

/-!
# The command line

What a call of the program does, as a function of its arguments and the file tree: the exit code,
what is printed, and the file tree that is left.
-/

namespace FormPatch.CommandLine

/-- What the arguments ask for. -/
structure Options where
  /-- The directory of all data. -/
  dataDirectory : Option String := none
  /-- The name of the project's directory. -/
  project : Option String := none
  /-- The extension of configuration files. -/
  extension : Option String := none
  /-- How many diagnostics are kept. -/
  capacity : Option Nat := none
  /-- The snapshot to patch. -/
  world : Option String := none
  /-- Where the patched store is saved. -/
  save : Option String := none
  /-- Whether nothing is applied. -/
  checkOnly : Bool := false
  /-- Whether files are printed as they were read. -/
  printFiles : Bool := false
  /-- Whether diagnostics and the summary are kept back. -/
  quiet : Bool := false
  /-- Whether help is asked for. -/
  help : Bool := false
  /-- Whether the version is asked for. -/
  version : Bool := false
deriving Repr

/-- What is wrong with arguments. -/
inductive Misuse where
  /-- An option stands at the end without its value. -/
  | noValue (option : String)
  /-- A value is no number, or too large. -/
  | noNumber (value : String)
  /-- An argument is no option. -/
  | unknown (argument : String)
  /-- A store cannot be saved when nothing is applied. -/
  | saveWithCheck
deriving DecidableEq, Repr

/-- The wording of a misuse. -/
def Misuse.message : Misuse → String
  | noValue option => s!"{option} requires a value"
  | noNumber value => s!"--max-diagnostics expects a number, got '{value}'"
  | unknown argument => s!"unknown option: {argument}"
  | saveWithCheck => "--save cannot be combined with --check"

/-- A count of diagnostics, as far as it fits 64 bits. -/
def capacity? (value : String) : Option Nat :=
  (Text.natural? value.toList).filter fun count => count < UInt64.size

/-- The option that needs no value and the change that it asks for. -/
def flag? (argument : String) : Option (Options → Options) :=
  match argument with
  | "-h" | "--help" => some fun options => { options with help := true }
  | "-V" | "--version" => some fun options => { options with version := true }
  | "-c" | "--check" => some fun options => { options with checkOnly := true }
  | "-p" | "--print" => some fun options => { options with printFiles := true }
  | "-q" | "--quiet" => some fun options => { options with quiet := true }
  | _ => none

/-- The option that needs a value and the change that it asks for. -/
def setting? (argument : String) : Option (String → Options → Except Misuse Options) :=
  match argument with
  | "--data" => some fun value options => .ok { options with dataDirectory := some value }
  | "--project" => some fun value options => .ok { options with project := some value }
  | "--extension" => some fun value options => .ok { options with extension := some value }
  | "--world" => some fun value options => .ok { options with world := some value }
  | "--save" => some fun value options => .ok { options with save := some value }
  | "--max-diagnostics" => some fun value options =>
    match capacity? value with
    | none => .error (.noNumber value)
    | some count => .ok { options with capacity := some count }
  | _ => none

/-- Takes options from the front of the arguments. -/
def Options.read (options : Options) : List String → Except Misuse Options
  | [] => .ok options
  | argument :: rest =>
    match flag? argument with
    | some change => (change options).read rest
    | none =>
      match setting? argument, rest with
      | none, _ => .error (.unknown argument)
      | some _, [] => .error (.noValue argument)
      | some change, value :: others => do
        let changed ← change value options
        changed.read others

/-- The options that arguments ask for. -/
def parse (arguments : List String) : Except Misuse Options := do
  let options ← ({} : Options).read arguments
  if options.checkOnly && options.save.isSome then throw .saveWithCheck
  else pure options

/-- Where files lie according to options. -/
def Options.loader (options : Options) : Loader :=
  let standard : Loader := {}
  { dataDirectory := (options.dataDirectory.map Path.mk).getD standard.dataDirectory
    project := options.project.getD standard.project
    extension := options.extension.getD standard.extension
    capacity := options.capacity.getD standard.capacity }

/-- The paths that a call reads from: the directories of all record types and the snapshot. -/
def Options.sources (options : Options) : List Path :=
  RecordType.inOrder.map options.loader.recordDirectory ++ (options.world.map Path.mk).toList

/-- What a call leaves behind. -/
structure Result where
  /-- The exit code. -/
  exit : Nat
  /-- What is printed as output. -/
  output : String
  /-- What is printed about the call. -/
  errors : String
  /-- The file tree. -/
  tree : FileTree
  /-- The file that was written. -/
  saved : Option Path

/-- A line in the style of a heading. -/
def heading (text : String) : String := "\x1b[1m" ++ text ++ "\x1b[0m"

/-- The name and version of the program. -/
def versionText : String := "formcfg 0.1.0\n"

/-- The help of the program. -/
def helpText : String :=
  "\n".intercalate
    [heading "formcfg" ++ " - Conditional record patcher",
      "",
      heading "USAGE:",
      "    formcfg [OPTIONS]",
      "",
      heading "OPTIONS:",
      "    -h, --help         Print help information",
      "    -V, --version      Print version information",
      "    --data DIR         Data directory (default: Data)",
      "    --project NAME     Project directory under the data directory (default: formcfg)",
      "    --extension EXT    Configuration file extension (default: cfg)",
      "    --max-diagnostics N",
      "                       Diagnostics kept in memory (default: 10000)",
      "    --world FILE       Form store snapshot to patch (default: empty store)",
      "    --save FILE        Save the patched store to a snapshot",
      "    -c, --check        Parse only; exit with failure if anything was logged",
      "    -p, --print        Print every parsed file back as configuration syntax",
      "    -q, --quiet        Do not echo diagnostics or the summary",
      "",
      heading "LAYOUT:",
      "    <data>/<project>/Keyword/**/*.cfg   Keyword patches (read and applied first)",
      "    <data>/<project>/Armor/**/*.cfg     Armor patches",
      "",
      heading "EXAMPLES:",
      "    formcfg --check --data Data                      Validate every file",
      "    formcfg --world skyrim.msgpack --save out.msgpack Patch a snapshot",
      ""]

/-- The line that says why a call failed. -/
def errorLine (message : String) : String := "\x1b[31mError: " ++ message ++ "\x1b[0m\n"

/-- The files of a session as they were read, each under its path. -/
def filesText (files : List SourceFile) : String :=
  String.join (files.map fun file => "# " ++ file.path.text ++ "\n" ++ file.patches.text ++ "\n")

/-- The diagnostics of a log, a line each. -/
def logText (log : Log) : String :=
  String.join (log.everything.map fun diagnostic => diagnostic.text ++ "\n")

/-- Reads and applies files as options ask for. -/
def execute (options : Options) (tree : FileTree) : Result :=
  let loaded : Except Failure Store :=
    match options.world with
    | none => .ok Store.empty
    | some path => Snapshot.load tree ⟨path⟩
  match loaded with
  | .error failure => ⟨1, "", errorLine failure.message, tree, none⟩
  | .ok store =>
    let read := (Session.start options.loader).readAll tree
    let output := if options.printFiles then filesText read.files else ""
    let (session, patched) := if options.checkOnly then (read, store) else read.applyAll store
    let echo := if options.quiet then "" else logText session.log
    let target := if options.checkOnly then none else options.save.map Path.mk
    let saved : Except Failure FileTree :=
      match target with
      | none => .ok tree
      | some path => Snapshot.save tree path patched
    match saved with
    | .error failure => ⟨1, output, echo ++ errorLine failure.message, tree, none⟩
    | .ok left =>
      let summary := session.summary
      let closing := if options.quiet then "" else summary.text ++ "\n"
      let logged := summary.warnings + summary.errors + summary.critical
      ⟨if options.checkOnly && 0 < logged then 1 else 0, output, echo ++ closing, left, target⟩

/-- What a call with some arguments does. -/
def run (arguments : List String) (tree : FileTree) : Result :=
  match parse arguments with
  | .error misuse => ⟨1, "", errorLine misuse.message, tree, none⟩
  | .ok options =>
    if options.help then ⟨0, helpText, "", tree, none⟩
    else if options.version then ⟨0, versionText, "", tree, none⟩
    else execute options tree

end FormPatch.CommandLine
