import ModuleMerge.CommandLine.Run
import ModuleMerge.FileSystem.DiskChanges
import ModuleMerge.ParseTree.Json
import Std.Time.DateTime.Timestamp

/-!
# The program

Loads the files that a command speaks of, runs the command on them, and does to the disk what the
run has done to them: it takes away the files that are gone and writes those that are new or have
changed. Files that stay as they were are not touched.

Grammars are not part of the program: the syntax tree of a source stands in a file beside it, whose
name has `.tree.json` at its end.

The rest is small: which events are logged may be said by the environment variable `RUST_LOG`, keys
are taken from a terminal only, and the name of a run has its time and some noise. A run with open
questions starts over with each line of keys, which is as good as going on since nothing is written
before its end.
-/

set_option autoImplicit false

namespace ModuleMerge
namespace CommandLine

/-! ## What a command speaks of -/

/-- The inputs that a command names. -/
def Command.inputs : Command → List Path
  | .merge first second _ _ | .review first second _ _ => [first, second]
  | .initConfig _ => []

/-- The paths that results go to. A report comes to its own by way of another one. -/
def Sinks.paths (sinks : Sinks) : List Path :=
  sinks.output.toList ++ sinks.log.toList ++ (sinks.log.map MergeReport.temporaryPath).toList

/-- The other paths that a command has to do with. -/
def Command.otherPaths : Command → List Path
  | .merge _ _ resolutions sinks => resolutions.toList ++ sinks.paths
  | .review _ _ saveResolutions sinks => saveResolutions.toList ++ sinks.paths
  | .initConfig p => [p]

/-- The path of the file that holds the syntax tree of a source. -/
def treePath (p : Path) : Path :=
  ⟨p.text ++ ".tree.json"⟩

/-- The tree of a source without a tree file: all of it fits no rule. -/
def unknownTree : ParseTree :=
  ⟨"ERROR", 0, 0, ⟨true, false, true, false, true⟩, none, []⟩

/-- The path of a place. -/
def pathOfPlace (place : Location) : String :=
  "/" ++ "/".intercalate place

/-! ## Loading files -/

/-- A file system with what is really at a place. -/
def loadPlace (fs : FileSystem) (place : Location) : IO FileSystem := do
  let root ← IO.FS.realPath "/"
  let path := root / pathOfPlace place
  if ← path.isDir then
    pure (fs.put place .directory)
  else if ← path.pathExists then
    pure (fs.put place (.file (← IO.FS.readFile path)))
  else
    pure fs

/-- The place that names lead to, whatever is there. -/
def followNames (start : Location) (names : List String) : Location :=
  names.foldl
    (fun place name =>
      if name = "." then place else if name = ".." then place.dropLast else place ++ [name])
    start

/-- A file system with what is really on the way to a path. -/
def loadPath (fs : FileSystem) (p : Path) : IO FileSystem := do
  let place := followNames (if p.isAbsolute then [] else fs.current) p.steps
  (List.range (place.length + 1)).foldlM (fun fs count => loadPlace fs (place.take count)) fs

/-- What is really on the way to some paths. -/
def loadPaths (fs : FileSystem) (paths : List Path) : IO FileSystem :=
  paths.foldlM loadPath fs

/-! ## Writing files -/

/-- Makes changes on the disk. Files go before others come, for one may stand where a directory is
to be. -/
def storeChanges (changes : DiskChanges) : IO Unit := do
  for place in changes.gone do
    IO.FS.removeFile (pathOfPlace place)
  for (place, node) in changes.fresh do
    match node with
    | .directory => IO.FS.createDirAll (pathOfPlace place)
    | .file content => IO.FS.writeFile (pathOfPlace place) content

/-! ## Running -/

/-- Runs the program. As long as a question is left open, it shows what was printed since the last
one and takes a line of keys. -/
partial def converse (env : Environment) (files : FileSystem) (arguments : List String)
    (shown : Nat) : IO Outcome := do
  let outcome := run env files arguments
  IO.eprint (outcome.errors.drop shown).toString
  match outcome.failure, env.keys with
  | some ⟨_, .noTerminal⟩, some keys => do
    let line ← (← IO.getStdin).getLine
    if line = "" then
      pure outcome
    else
      converse { env with keys := some (keys ++ line.toList) } files arguments
        outcome.errors.length
  | _, _ => pure outcome

/-- The trees that stand beside some sources, each with the text of its source. -/
def loadTrees (fs : FileSystem) (paths : List Path) : IO (List (String × ParseTree)) :=
  paths.filterMapM fun p => do
    match fs.read p, fs.read (treePath p) with
    | .ok text, .ok json =>
      match ParseTree.ofJson json with
      | .ok tree => pure (some (text, tree))
      | .error e => throw (IO.userError ((treePath p).text ++ ": " ++ e.message))
    | _, _ => pure none

/-- Runs the program and gives its exit code. -/
def runProgram (arguments : List String) : IO UInt32 := do
  let current := (← IO.currentDir).toString
  let start : FileSystem := ⟨(Path.mk current).steps, []⟩
  let start ← loadPath start ⟨"."⟩
  let (settingsFile, inputs, others) :=
    match Request.ofArguments? arguments with
    | some (.run settingsFile command) => (settingsFile, command.inputs, command.otherPaths)
    | _ => (none, [], [])
  let files ← loadPaths start (settingsFile.toList ++ inputs ++ inputs.map treePath ++ others)
  let logDirectory :=
    match Settings.loadOrDefault files settingsFile with
    | .ok settings => settings.logging.directory
    | .error _ => none
  let logFile := logDirectory.map fun directory => directory.join ⟨"declmerge.log"⟩
  let files ← loadPaths files logFile.toList
  let trees ← loadTrees files inputs
  let now ← Std.Time.Timestamp.now
  let nanos := now.toNanosecondsSinceUnixEpoch.val.toNat
  let noise := (← IO.getRandomBytes 4).foldl (fun n b => 256 * n + b.toNat) 0
  let env : Environment :=
    { parse := fun _ text => (trees.lookup text).getD unknownTree
      keys := if ← (← IO.getStdin).isTty then some [] else none
      filter := ← IO.getEnv "RUST_LOG"
      runId := runId (nanos / 1000000) noise
      now := .ofUnixTime (nanos / 1000000000) (nanos % 1000000000) }
  let outcome ← converse env files arguments 0
  storeChanges (files.diskChanges outcome.files)
  IO.print outcome.output
  IO.eprint ((outcome.failure.map Failure.report).getD "")
  pure (.ofNat outcome.exitCode)

end CommandLine
end ModuleMerge

/-- Runs the program on its arguments. -/
def main (arguments : List String) : IO UInt32 :=
  ModuleMerge.CommandLine.runProgram arguments
