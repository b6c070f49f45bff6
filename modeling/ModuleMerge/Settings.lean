import ModuleMerge.Failure

/-!
# Settings

What a user can set once for all merges, kept in a file of JSON. Every section and every field may
be left out of the file and then has its default.

* `Settings` has a section for merges, one for the log and one for reports; `Settings.default`
  are the defaults.
* `Settings.languageFor` is the language of an input, and `Settings.mergeConfig` the configuration
  of a merge.
* `Settings.codec` is the form of the file; `Settings.load`, `Settings.loadOrDefault` and
  `Settings.save` read and write it.
-/

set_option autoImplicit false

namespace ModuleMerge

/-- What can be set for merges. -/
structure MergeSettings where
  /-- The language of all inputs; by default it follows from an input's name. -/
  language : Option Language
  annotationTag : String
  allowSyntaxErrors : Bool
  deriving DecidableEq, Repr

/-- What can be set for the log. -/
structure LoggingSettings where
  /-- Which events are logged. -/
  filter : String
  /-- The directory of the log file; by default there is none. -/
  directory : Option Path
  deriving DecidableEq, Repr

/-- What can be set for reports. -/
structure ReportSettings where
  includeBodies : Bool
  pretty : Bool
  deriving DecidableEq, Repr

/-- Everything that can be set. -/
structure Settings where
  merge : MergeSettings
  logging : LoggingSettings
  report : ReportSettings
  deriving DecidableEq, Repr

/-- The tag of annotations if none is set. -/
def defaultAnnotationTag : String := "merge"

/-- Which events are logged if nothing is set. -/
def defaultLogFilter : String := "info"

/-- What holds of reports if nothing is set. -/
def defaultTrue : Bool := true

/-- The merge section without a file. -/
def MergeSettings.default : MergeSettings :=
  ⟨none, defaultAnnotationTag, false⟩

/-- The log section without a file. -/
def LoggingSettings.default : LoggingSettings :=
  ⟨defaultLogFilter, none⟩

/-- The report section without a file. -/
def ReportSettings.default : ReportSettings :=
  ⟨true, true⟩

namespace Settings

/-- The settings without a file. -/
def default : Settings :=
  ⟨.default, .default, .default⟩

/-- The language of an input: the one that is set, else the one that its name says, else C#. -/
def languageFor (s : Settings) (input : Path) : Language :=
  (s.merge.language.or (input.extension?.bind Language.ofExtension?)).getD .csharp

/-- The configuration of merges in a language. -/
def mergeConfig (s : Settings) (language : Language) : MergeConfig :=
  ⟨language, s.merge.annotationTag, s.merge.allowSyntaxErrors⟩

end Settings

/-! ## The file -/

open Json

/-- Paths, as strings. -/
def Path.codec : Codec Path :=
  .via (.textAs "path string") Path.text Path.mk

/-- The merge section as an object. -/
def MergeSettings.codec : Codec MergeSettings :=
  .record "MergeSettings"
    (.cons (.withDefault "language" Language.codec.nullable none) <|
      .cons (.withDefault "annotation_tag" .text defaultAnnotationTag) <|
      .cons (.withDefault "allow_syntax_errors" .bool false) .nil)
    (fun s => (s.language, s.annotationTag, s.allowSyntaxErrors, ()))
    (fun (language, annotationTag, allowSyntaxErrors, _) =>
      ⟨language, annotationTag, allowSyntaxErrors⟩)

/-- The log section as an object. -/
def LoggingSettings.codec : Codec LoggingSettings :=
  .record "LoggingSettings"
    (.cons (.withDefault "filter" .text defaultLogFilter) <|
      .cons (.withDefault "dir" Path.codec.nullable none) .nil)
    (fun s => (s.filter, s.directory, ()))
    (fun (filter, directory, _) => ⟨filter, directory⟩)

/-- The report section as an object. -/
def ReportSettings.codec : Codec ReportSettings :=
  .record "ReportSettings"
    (.cons (.withDefault "include_bodies" .bool defaultTrue) <|
      .cons (.withDefault "pretty" .bool defaultTrue) .nil)
    (fun s => (s.includeBodies, s.pretty, ()))
    (fun (includeBodies, pretty, _) => ⟨includeBodies, pretty⟩)

namespace Settings

/-- Settings as an object. -/
def codec : Codec Settings :=
  .record "Settings"
    (.cons (.withDefault "merge" MergeSettings.codec .default) <|
      .cons (.withDefault "logging" LoggingSettings.codec .default) <|
      .cons (.withDefault "report" ReportSettings.codec .default) .nil)
    (fun s => (s.merge, s.logging, s.report, ()))
    (fun (merge, logging, report, _) => ⟨merge, logging, report⟩)

/-- The settings in a file. -/
def load (fs : FileSystem) (p : Path) : Except Failure Settings := do
  let content ← fs.readFor .readingSettings p
  (codec.decode content).mapError fun e => .during .parsingSettings p (.json e)

/-- The settings in a file if there is one, else the defaults. -/
def loadOrDefault (fs : FileSystem) (p? : Option Path) : Except Failure Settings :=
  match p? with
  | none => .ok .default
  | some p => if fs.contains p then load fs p else .ok .default

/-- Writes settings to a file, in a directory that is made if need be. -/
def save (s : Settings) (p : Path) : FileAction Unit := do
  match p.parent? with
  | none => pure ()
  | some directory => FileAction.createDirectories directory
  FileAction.write .writingSettings p (codec.encodeText .pretty s)

end Settings

end ModuleMerge
