import ModuleMerge.FileSystem.Basic
import ModuleMerge.Merge

/-!
# Why a run fails

* `Cause` is what went wrong, and `Failure` adds what was being done to which file.
* `Failure.messages` says it in words, and `Failure.report` is what a user is shown.
* `FileAction` is the type of steps that work on files and may fail. What a step has changed by
  then stays changed.
-/

set_option autoImplicit false

namespace ModuleMerge

/-- What can be done to a file. -/
inductive FileTask where
  | readingInput
  | loadingResolutions
  | writingResolutions
  | writingMerged
  | readingSettings
  | parsingSettings
  | writingSettings
  | readingReport
  | writingReport
  | movingReport
  deriving DecidableEq, Repr

/-- What is being done to a file, in words. -/
def FileTask.describe (task : FileTask) (p : Path) : String :=
  (match task with
    | readingInput => "reading "
    | loadingResolutions => "loading resolutions from "
    | writingResolutions => "writing resolutions to "
    | writingMerged => "writing merged source to "
    | readingSettings => "reading settings from "
    | parsingSettings => "parsing settings in "
    | writingSettings => "writing settings to "
    | readingReport => "reading report from "
    | writingReport => "writing report to "
    | movingReport => "moving report into ") ++ p.text

/-- What went wrong. -/
inductive Cause where
  | file (error : FileError)
  | json (error : Json.ReadError)
  | merge (error : MergeError)
  /-- A question was to be asked where nobody can answer. -/
  | noTerminal

/-- A cause in words, with what caused it in turn. -/
def Cause.messages : Cause → List String
  | file e => [e.message]
  | json e => [e.message]
  | merge e => [e.message]
  | noTerminal => ["IO error: not a terminal", "not a terminal"]

/-- Why a run fails. -/
structure Failure where
  /-- What was being done to which file, if that is said. -/
  occasion : Option (FileTask × Path)
  cause : Cause

namespace Failure

/-- A failure of which only the cause is said. -/
def bare (cause : Cause) : Failure :=
  ⟨none, cause⟩

/-- A failure while something was done to a file. -/
def during (task : FileTask) (p : Path) (cause : Cause) : Failure :=
  ⟨some (task, p), cause⟩

/-- A failure in words, from the outside in. -/
def messages (f : Failure) : List String :=
  match f.occasion with
  | none => f.cause.messages
  | some (task, p) => task.describe p :: f.cause.messages

/-- A text behind a margin of four blanks. -/
def indented (text : String) : String :=
  String.ofList
    ("    ".toList ++ text.toList.flatMap fun c => if c = '\n' then "\n    ".toList else [c])

/-- What a user is shown of a failure: its first message, and below it what caused it. -/
def report (f : Failure) : String :=
  match f.messages with
  | [] => ""
  | message :: causes =>
    "Error: " ++ message ++ "\n"
      ++ (if causes.isEmpty then "" else "\nCaused by:\n")
      ++ String.join (causes.map fun cause => indented cause ++ "\n")

end Failure

/-! ## Steps on files -/

/-- A step that works on files and may fail. -/
abbrev FileAction (α : Type) := EStateM Failure FileSystem α

namespace FileAction

/-- An operation on files as a step. -/
def ofOperation (explain : FileError → Failure)
    (operation : FileSystem → Except FileError FileSystem) : FileAction Unit := fun fs =>
  match operation fs with
  | .ok fs' => .ok () fs'
  | .error e => .error (explain e) fs

/-- Makes a directory and those above it. -/
def createDirectories (p : Path) : FileAction Unit :=
  EStateM.adaptExcept (fun e => .bare (.file e)) (FileSystem.createDirectories p)

/-- Gives a file a content. -/
def write (task : FileTask) (p : Path) (content : String) : FileAction Unit :=
  ofOperation (fun e => .during task p (.file e)) (·.write p content)

end FileAction

/-- The content of a file. -/
def FileSystem.readFor (fs : FileSystem) (task : FileTask) (p : Path) : Except Failure String :=
  (fs.read p).mapError fun e => .during task p (.file e)

end ModuleMerge
