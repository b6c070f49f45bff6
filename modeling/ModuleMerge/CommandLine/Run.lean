import ModuleMerge.CommandLine.Arguments
import ModuleMerge.CommandLine.Prompt
import ModuleMerge.CommandLine.Session
import ModuleMerge.Report

/-!
# What the commands do

A merge first finds out everything it needs, which changes nothing, and only then writes its
results. The merged source and the report go to places of their own.

* `Finding` is the type of what is found out, with the events on the way; `findMerged` is the
  finding of a merge.
* `emit` writes the results of a pass.
* `merge`, `review` and `initConfig` are the commands.
* `run` runs the program on its arguments; `Outcome` is what is left of a run.
-/

set_option autoImplicit false

namespace ModuleMerge
namespace CommandLine

/-! ## Finding out -/

/-- Something to be found out, with the events on the way. -/
abbrev Finding (α : Type) := EStateM Failure (List Event) α

namespace Finding

/-- Events on the way. -/
def note (events : List Event) : Finding Unit :=
  modify (· ++ events)

/-- What is found, or why not. -/
def ofExcept {α : Type} (found : Except Failure α) : Finding α := fun events =>
  match found with
  | .ok a => .ok a events
  | .error e => .error e events

/-- A pass, with what it reports. -/
def ofReport (report : PassReport) : Finding MergeOutput := do
  note report.events
  ofExcept ((report.run.map MergeRun.output).mapError fun e => .bare (.merge e))

end Finding

/-- The step that finds something out and logs the events on the way. -/
def Step.ofFinding {α : Type} (finding : Finding α) : Step α := do
  match finding [] with
  | .ok a events => do
    Step.recordAll events
    pure a
  | .error e events => do
    Step.recordAll events
    throw e

/-- The two inputs of a merge, as texts. -/
structure Inputs where
  first : String
  second : String
  deriving DecidableEq, Repr

/-- The inputs that two files hold. -/
def Inputs.read (fs : FileSystem) (first second : Path) : Except Failure Inputs := do
  let firstText ← fs.readFor .readingInput first
  let secondText ← fs.readFor .readingInput second
  pure ⟨firstText, secondText⟩

/-- The resolutions that a file holds. -/
def findResolutions (fs : FileSystem) (p : Path) : Finding Resolutions := do
  let payload ← .ofExcept (fs.readFor .readingInput p)
  match Resolutions.readPayload payload with
  | .error e => throw (.during .loadingResolutions p (.merge (.badResolutions e)))
  | .ok records => do
    let resolutions := Resolutions.ofRecords records
    .note (unknownChoices records ++ [.resolutionsLoaded resolutions.size])
    pure resolutions

/-- How a merge is configured: by its language option, or by the settings and the first input's
name. -/
def configFor (settings : Settings) (first : Path) (sinks : Sinks) : MergeConfig :=
  settings.mergeConfig (sinks.language.getD (settings.languageFor first))

/-- The finding of a pass over two texts. -/
def findPass (env : Environment) (config : MergeConfig) (inputs : Inputs)
    (resolutions : Option Resolutions) : Finding MergeOutput :=
  let source (text : String) : Source := ⟨text, env.parse config.language text⟩
  .ofReport (.ofRun (config.run (source inputs.first) (source inputs.second) resolutions))

/-- Everything that a merge finds out: it reads the inputs, then the resolutions if it has any, and
then runs the pass. -/
def findMerged (env : Environment) (settings : Settings) (fs : FileSystem)
    (first second : Path) (resolutions : Option Path) (sinks : Sinks) :
    Finding MergeOutput := do
  let inputs ← .ofExcept (Inputs.read fs first second)
  let resolutions ←
    match resolutions with
    | none => pure none
    | some p => some <$> findResolutions fs p
  let config := configFor settings first sinks
  .note [.languageSelected config.language]
  findPass env config inputs resolutions

/-! ## Writing results -/

/-- Writes the merged source to its place. -/
def emitSource (output : MergeOutput) (sinks : Sinks) : Step Unit :=
  match sinks.output with
  | none => Step.print output.merged
  | some p => do
    Step.onFiles (.write .writingMerged p output.merged)
    Step.record (.sourceWritten p.text)

/-- Writes the report to its place. -/
def emitReport (report : MergeReport) (pretty : Bool) (sinks : Sinks) : Step Unit :=
  match sinks.log with
  | none => Step.printError (report.text pretty ++ "\n")
  | some p => do
    Step.onFiles (report.save p pretty)
    Step.replaceLogFile p

/-- Writes the results of a pass over two named inputs. -/
def emit (env : Environment) (settings : Settings) (first second : Path)
    (output : MergeOutput) (sinks : Sinks) : Step Unit := do
  emitSource output sinks
  emitReport
    (.ofOutput env.runId env.now output first.text second.text settings.report.includeBodies)
    settings.report.pretty sinks
  Step.record (.mergeFinished output.pass output.ledger.size env.runId)

/-! ## Commands -/

/-- Merges two inputs, with the choices of a file if there is one. -/
def merge (env : Environment) (settings : Settings) (first second : Path)
    (resolutions : Option Path) (sinks : Sinks) : Step Unit := do
  let fs := (← get).files
  let output ← .ofFinding (findMerged env settings fs first second resolutions sinks)
  emit env settings first second output sinks

/-- What a user is shown of a difference before the question. -/
def showEntry (e : LedgerEntry) : String :=
  "\n#" ++ toString e.id ++ " " ++ e.kind.name ++ " " ++ e.location ++ "." ++ e.name ++ "\n"
    ++ match e.bodyDiff? with
      | none => "(bodies are identical)\n"
      | some diff => if diff = "" then "(bodies are identical)\n" else diff

/-- Asks for the choices of differences, one after the other. -/
def askChoices : List LedgerEntry → Resolutions → Step Resolutions
  | [], r => pure r
  | e :: es, r => do
    Step.printError (showEntry e)
    let choice ← Step.ask (pickChoice (.suggested e.kind))
    askChoices es (r.insert e.id choice)

/-- Asks the user for all choices, and then merges. -/
def review (env : Environment) (settings : Settings) (first second : Path)
    (saveResolutions : Option Path) (sinks : Sinks) : Step Unit := do
  let inputs ← Step.look (Inputs.read · first second)
  let config := configFor settings first sinks
  Step.record (.languageSelected config.language)
  let detected ← .ofFinding (findPass env config inputs none)
  let choosable := detected.ledger.choosable
  Step.printError
    (toString detected.ledger.size ++ " ledger entries, " ++ toString choosable.length
      ++ " need a decision\n")
  let resolutions ← askChoices choosable .empty
  match saveResolutions with
  | none => pure ()
  | some p => do
    Step.onFiles (.write .writingResolutions p resolutions.toJson)
    Step.printError ("Resolutions saved to " ++ p.text ++ "\n")
  let output ← .ofFinding (findPass env config inputs (some resolutions))
  emit env settings first second output sinks

/-- Writes a file with the default settings. The user is asked first if there is one already. -/
def initConfig (p : Path) : Step Unit := do
  let overwrite ← if (← get).files.contains p then Step.ask confirm else pure true
  if overwrite then
    Step.onFiles (Settings.default.save p)
    Step.print ("Default settings written to " ++ p.text ++ "\n")
  else
    Step.print ("Left " ++ p.text ++ " unchanged.\n")

/-- Does what a command asks for. -/
def perform (env : Environment) (settings : Settings) : Command → Step Unit
  | .merge first second resolutions sinks =>
    merge env settings first second resolutions sinks
  | .review first second saveResolutions sinks =>
    review env settings first second saveResolutions sinks
  | .initConfig p => initConfig p

/-- Reads the settings, starts the log and does what a command asks for. -/
def start (env : Environment) (settingsFile : Option Path) (command : Command) : Step Unit := do
  let settings ← Step.look (Settings.loadOrDefault · settingsFile)
  Step.openLog env.filter settings.logging
  perform env settings command

/-! ## The program -/

/-- What is left of a run. -/
structure Outcome where
  exitCode : Nat
  /-- What was printed. -/
  output : String
  /-- What was printed apart from the output, without the report of a failure. -/
  errors : String
  files : FileSystem
  /-- Why the run failed, if it did. -/
  failure : Option Failure

/-- Everything that was printed apart from the output. -/
def Outcome.allErrors (o : Outcome) : String :=
  match o.failure with
  | none => o.errors
  | some f => o.errors ++ f.report

/-- What the program says of its version. -/
def versionText : String :=
  "declmerge 0.1.0\n"

/-- How the program is used, for those whose arguments it does not understand. -/
def usageText : String :=
  "Usage: declmerge [--config <CONFIG>] <merge|review|init-config> [ARGUMENTS]\n"

/-- The outcome of a step from a state on. -/
def Outcome.ofStep (step : Step Unit) (s : Session) : Outcome :=
  match step s with
  | .ok _ s => ⟨0, s.output, s.errors, s.files, none⟩
  | .error f s => ⟨1, s.output, s.errors, s.files, some f⟩

/-- Runs the program on its arguments. -/
def run (env : Environment) (files : FileSystem) (arguments : List String) : Outcome :=
  match Request.ofArguments? arguments with
  | none => ⟨2, "", usageText, files, none⟩
  | some .version => ⟨0, versionText, "", files, none⟩
  | some (.run settingsFile command) =>
    .ofStep (start env settingsFile command) (.start files env.keys)

end CommandLine
end ModuleMerge
