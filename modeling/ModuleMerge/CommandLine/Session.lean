import ModuleMerge.Calendar.Instant
import ModuleMerge.Event.Filter
import ModuleMerge.Settings

/-!
# A run of the program

What a run of the program reads and changes, and the steps it is made of. A step may fail; what was
printed and written by then stays.

* `Environment` is what a run is given besides its arguments and the files.
* `Session` is the state of a run, and `Step` the type of its steps.
* `Step.print`, `Step.printError`, `Step.record`, `Step.onFiles` and `Step.ask` are the steps that
  all others are made of.
* `Step.openLog` starts the log, and `Step.replaceLogFile` is what it is to the log that a file was
  moved.
-/

set_option autoImplicit false

namespace ModuleMerge
namespace CommandLine

open Calendar

/-- What a run is given. -/
structure Environment where
  /-- The syntax tree of a source text in a language. -/
  parse : Language → String → ParseTree
  /-- The keys that the user types, if there is a user. -/
  keys : Option (List Char)
  /-- The filter of events that goes before the one of the settings if all its parts state rules. -/
  filter : Option String
  runId : String
  now : Instant

/-- Where events go. -/
structure Log where
  filter : EventFilter
  /-- The file that events are added to, as long as a path leads to it. -/
  file : Option Path
  deriving DecidableEq, Repr

/-- The log that nothing goes to. -/
def Log.silent : Log :=
  ⟨⟨[]⟩, none⟩

/-- The state of a run. -/
structure Session where
  files : FileSystem
  keys : Option (List Char)
  log : Log
  /-- What was printed. -/
  output : String
  /-- What was printed apart from the output. -/
  errors : String
  deriving DecidableEq, Repr

/-- The state in which a run starts. -/
def Session.start (files : FileSystem) (keys : Option (List Char)) : Session :=
  ⟨files, keys, .silent, "", ""⟩

/-- A step of a run. -/
abbrev Step (α : Type) := EStateM Failure Session α

namespace Step

/-- Prints a text. -/
def print (text : String) : Step Unit :=
  modify fun s => { s with output := s.output ++ text }

/-- Prints a text apart from the output. -/
def printError (text : String) : Step Unit :=
  modify fun s => { s with errors := s.errors ++ text }

/-- A step on the files. -/
def onFiles {α : Type} (action : FileAction α) : Step α := fun s =>
  match action s.files with
  | .ok a files => .ok a { s with files }
  | .error e files => .error e { s with files }

/-- What is found in the files. -/
def look {α : Type} (question : FileSystem → Except Failure α) : Step α := fun s =>
  match question s.files with
  | .ok a => .ok a s
  | .error e => .error e s

/-- Asks the user. -/
def ask {α : Type} (answer : List Char → Option (α × List Char)) : Step α := fun s =>
  match s.keys.bind answer with
  | some (a, keys) => .ok a { s with keys := some keys }
  | none => .error (.bare .noTerminal) s

/-- Adds to the log file, if there is one. -/
def logLine (line : String) : Step Unit := do
  match (← get).log.file with
  | none => pure ()
  | some file =>
    onFiles (.ofOperation (fun e => .bare (.file e)) (·.append file line))

/-- Logs an event, if the log's filter lets it pass. -/
def record (e : Event) : Step Unit := do
  if (← get).log.filter.passes e then
    printError e.line
    logLine e.line
  else
    pure ()

/-- Logs events in order. -/
def recordAll : List Event → Step Unit
  | [] => pure ()
  | e :: es => do
    record e
    recordAll es

/-- Leaves the log without a file if its file is where a path leads to. Another file was moved to
that place, and what is logged goes on in the one before, which no path leads to. -/
def replaceLogFile (p : Path) : Step Unit :=
  modify fun s =>
    if s.log.file.any (s.files.isSamePlace p) then { s with log := { s.log with file := none } }
    else s

/-- Starts the log that settings ask for. The log file is there from now on. -/
def openLog (filter : Option String) (settings : LoggingSettings) : Step Unit := do
  let file := settings.directory.map fun directory => directory.join ⟨"declmerge.log"⟩
  match settings.directory with
  | none => pure ()
  | some directory => onFiles (FileAction.createDirectories directory)
  let rules := (filter.filter fun text => (EventFilter.warnings text).isEmpty).getD settings.filter
  modify fun s => { s with log := ⟨.ofText rules, file⟩ }
  logLine ""
  printError (String.join (EventFilter.warnings rules))

end Step

end CommandLine
end ModuleMerge
