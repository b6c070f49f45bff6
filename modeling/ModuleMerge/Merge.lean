import ModuleMerge.Composition
import ModuleMerge.Declaration.Lowering
import ModuleMerge.Declaration.Rendering
import ModuleMerge.Event
import ModuleMerge.Ledger.Json
import ModuleMerge.Resolution.Json

/-!
# Merging two source files

A pass reads both files, matches their declarations, resolves what differs, and writes the merged
module. Every pass does all of this anew, so the ids that a detect pass reports mean the same
differences to a resolve pass over the same files.

* `merge` is a pass over two declaration trees.
* `MergeConfig.run` is a pass over two files; `MergeConfig.detect`, `MergeConfig.resolve` and
  `MergeConfig.resolveJson` are its uses.
* `MergeRun.events` and `unknownChoices` are what a pass reports about itself; a `PassReport` puts
  it beside what the pass gives.
-/

set_option autoImplicit false

namespace ModuleMerge

/-! ## Trees -/

/-- Everything that a pass over two trees finds and makes. -/
structure Merged where
  plan : MatchPlan
  ledger : Ledger
  edits : EditPlan
  result : SourceModule

/-- A pass over two trees, with the tag of the notes and the user's choices if there are any. -/
def merge (tag : String) (resolutions : Option Resolutions) (first second : SourceModule) :
    Merged :=
  let matched := matchModules (.ofModule first) (.ofModule second)
  let edits := Resolver.resolve ⟨tag, resolutions⟩ matched.1
  { plan := matched.1, ledger := matched.2, edits, result := first.compose edits }

/-! ## Files -/

/-- How passes are run. -/
structure MergeConfig where
  language : Language
  /-- What every note starts with. -/
  annotationTag : String
  /-- Whether files with bad nodes are merged all the same. -/
  allowSyntaxErrors : Bool
  deriving DecidableEq, Repr

/-- The configuration without further wishes. -/
def MergeConfig.default : MergeConfig :=
  ⟨.csharp, "merge", false⟩

/-- What a pass gives. -/
structure MergeOutput where
  pass : Pass
  /-- The source text of the merged module. -/
  merged : String
  ledger : Ledger
  decisions : List Decision
  deriving DecidableEq, Repr

/-- Why a pass gives nothing. -/
inductive MergeError where
  | badSource (side : Side) (fault : SyntaxFault)
  | badResolutions (error : Json.ReadError)

namespace MergeError

/-- An error in words. -/
def message : MergeError → String
  | badSource side fault =>
    side.name ++ " input could not be parsed at line " ++ toString (fault.position.row + 1)
      ++ ", column " ++ toString (fault.position.column + 1) ++ ": " ++ fault.detail
  | badResolutions error => "malformed resolution payload: " ++ error.message

end MergeError

/-- A pass that was run, with the number of types of each input. -/
structure MergeRun where
  output : MergeOutput
  language : Language
  firstTypes : Nat
  secondTypes : Nat
  resolutions : Option Resolutions

namespace MergeConfig

/-- Reads one of the two files. -/
def readSide (config : MergeConfig) (side : Side) (s : Source) :
    Except MergeError SourceModule :=
  match s.read config.language config.allowSyntaxErrors with
  | .ok m => .ok m
  | .error fault => .error (.badSource side fault)

/-- The pass over two modules that were read. -/
def runModules (config : MergeConfig) (resolutions : Option Resolutions)
    (first second : SourceModule) : MergeRun :=
  let merged := merge config.annotationTag resolutions first second
  { output :=
      { pass := if resolutions.isSome then .resolve else .detect
        merged := merged.result.render
        ledger := merged.ledger
        decisions := merged.edits.decisions }
    language := config.language
    firstTypes := (Index.ofModule first).size
    secondTypes := (Index.ofModule second).size
    resolutions }

/-- A pass over two files: the first that cannot be read is the error. -/
def run (config : MergeConfig) (first second : Source) (resolutions : Option Resolutions) :
    Except MergeError MergeRun := do
  let firstModule ← config.readSide .first first
  let secondModule ← config.readSide .second second
  pure (config.runModules resolutions firstModule secondModule)

/-- The pass in which every difference takes its default. -/
def detect (config : MergeConfig) (first second : Source) : Except MergeError MergeOutput :=
  (config.run first second none).map MergeRun.output

/-- The pass with the user's choices. -/
def resolve (config : MergeConfig) (first second : Source) (resolutions : Resolutions) :
    Except MergeError MergeOutput :=
  (config.run first second (some resolutions)).map MergeRun.output

/-- The pass with the user's choices as JSON, which is read before the files. -/
def resolveJson (config : MergeConfig) (first second : Source) (payload : String) :
    Except MergeError MergeOutput :=
  match Resolutions.ofJson payload with
  | .ok resolutions => config.resolve first second resolutions
  | .error error => .error (.badResolutions error)

end MergeConfig

/-! ## Events -/

/-- What is reported about the words of a payload that mean no choice. -/
def unknownChoices (records : List ResolutionRecord) : List Event :=
  (records.filter fun r => (Choice.parse? r.choice).isNone).map fun r =>
    .unknownChoice r.id r.choice

/-- What is reported about a choice that a ledger has no use for. -/
def ignoredChoice? (ledger : Ledger) (id : Nat) (choice : Choice) : Option Event :=
  match ledger.get? id with
  | none => some (.unknownId id choice)
  | some e => if e.isChoosable then none else some (.notChoosable id e.kind)

/-- What a pass reports: every difference, then the choices that are ignored, then its end. -/
def MergeRun.events (run : MergeRun) : List Event :=
  let ignored :=
    match run.resolutions with
    | some r => r.choices.filterMap fun pair => ignoredChoice? run.output.ledger pair.1 pair.2
    | none => []
  run.output.ledger.entries.map Event.ofEntry ++ ignored
    ++ [.passComplete run.output.pass run.language run.firstTypes run.secondTypes
        run.output.ledger.size]

/-- A pass that may have failed, with what it reports. -/
structure PassReport where
  events : List Event
  run : Except MergeError MergeRun

namespace PassReport

/-- A pass by itself reports only once it has succeeded. -/
def ofRun (run : Except MergeError MergeRun) : PassReport :=
  match run with
  | .ok r => ⟨r.events, run⟩
  | .error _ => ⟨[], run⟩

/-- What was reported before, in front. -/
def after (earlier : List Event) (report : PassReport) : PassReport :=
  { report with events := earlier ++ report.events }

end PassReport

/-- The pass with the user's choices as JSON, reported from the reading of the choices on. -/
def MergeConfig.reportJson (config : MergeConfig) (first second : Source) (payload : String) :
    PassReport :=
  match Resolutions.readPayload payload with
  | .ok records =>
    (PassReport.ofRun (config.run first second (some (.ofRecords records)))).after
      (unknownChoices records)
  | .error error => ⟨[], .error (.badResolutions error)⟩

/-! ## JSON -/

open Json

/-- Languages, by their names. -/
def Language.codec : Codec Language :=
  .enumeration [.csharp, .java] Language.name

/-- Passes, by their words. -/
def Pass.codec : Codec Pass :=
  .enumeration [.detect, .resolve] Pass.name

/-- A configuration as an object. -/
def MergeConfig.codec : Codec MergeConfig :=
  .record "MergeConfig"
    (.cons (.required "language" Language.codec) <|
      .cons (.required "annotation_tag" .text) <|
      .cons (.required "allow_syntax_errors" .bool) .nil)
    (fun c => (c.language, c.annotationTag, c.allowSyntaxErrors, ()))
    (fun (language, annotationTag, allowSyntaxErrors, _) =>
      ⟨language, annotationTag, allowSyntaxErrors⟩)

/-- What a pass gives, as an object. -/
def MergeOutput.codec : Codec MergeOutput :=
  .record "MergeOutput"
    (.cons (.required "pass" Pass.codec) <|
      .cons (.required "merged" .text) <|
      .cons (.required "ledger" Ledger.codec) <|
      .cons (.required "decisions" (.list Decision.codec)) .nil)
    (fun o => (o.pass, o.merged, o.ledger, o.decisions, ()))
    (fun (pass, merged, ledger, decisions, _) => ⟨pass, merged, ledger, decisions⟩)

end ModuleMerge
