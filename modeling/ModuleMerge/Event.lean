import ModuleMerge.Language
import ModuleMerge.Ledger
import ModuleMerge.Resolution.Choice
import ModuleMerge.Text.Quoted

/-!
# What a run reports about itself

Runs report events: what was read, recorded, ignored and written. An event has a level, the part
of the program that reports it, a message and named fields.

* `Level` is how much an event matters.
* `Event` lists the events there are; `Event.level`, `Event.target`, `Event.message` and
  `Event.fields` are what is shown of one.
* `Event.line` is an event as one line of a log.
-/

set_option autoImplicit false

namespace ModuleMerge

/-! ## Levels -/

/-- How much an event matters. -/
inductive Level where
  | error
  | warn
  | info
  | debug
  | trace
  deriving DecidableEq, Repr

namespace Level

/-- The word for a level. -/
def name : Level → String
  | error => "ERROR"
  | warn => "WARN"
  | info => "INFO"
  | debug => "DEBUG"
  | trace => "TRACE"

/-- How many levels matter at least as much. -/
def rank : Level → Nat
  | error => 1
  | warn => 2
  | info => 3
  | debug => 4
  | trace => 5

end Level

/-! ## Events -/

/-- The value of a field. -/
inductive FieldValue where
  | number (n : Nat)
  /-- A text that is shown as it is. -/
  | plain (s : String)
  /-- A text that is shown in quotes. -/
  | quoted (s : String)
  deriving DecidableEq, Repr

/-- What a run reports. -/
inductive Event where
  /-- A word of a resolution payload means no choice. -/
  | unknownChoice (id : Nat) (choice : String)
  /-- A difference was recorded. -/
  | recorded (id : Nat) (kind : DifferenceKind) (name location : String)
  /-- A resolution has an id that the ledger lacks. -/
  | unknownId (id : Nat) (choice : Choice)
  /-- A resolution is for a difference that leaves no choice. -/
  | notChoosable (id : Nat) (kind : DifferenceKind)
  /-- A pass has made its merged module. -/
  | passComplete (pass : Pass) (language : Language) (firstTypes secondTypes entries : Nat)
  /-- A resolution payload was read. -/
  | resolutionsLoaded (count : Nat)
  /-- The inputs' language is known. -/
  | languageSelected (language : Language)
  /-- The merged source is in its file. -/
  | sourceWritten (path : String)
  /-- A merge has ended. -/
  | mergeFinished (pass : Pass) (entries : Nat) (runId : String)
  deriving DecidableEq, Repr

namespace Event

/-- The level of an event. -/
def level : Event → Level
  | unknownChoice .. => .warn
  | recorded .. | unknownId .. | notChoosable .. | passComplete .. | languageSelected .. => .debug
  | resolutionsLoaded .. | sourceWritten .. | mergeFinished .. => .info

/-- The part of the program that reports an event. -/
def target : Event → String
  | recorded .. => "merge_engine::ledger"
  | unknownChoice .. | unknownId .. | notChoosable .. => "merge_engine::resolver"
  | passComplete .. => "merge_engine::protocol"
  | resolutionsLoaded .. | languageSelected .. | sourceWritten .. | mergeFinished .. => "declmerge"

/-- The message of an event. -/
def message : Event → String
  | unknownChoice .. => "unknown resolution choice, falling back to KeepBoth"
  | recorded .. => "ledger entry recorded"
  | unknownId .. => "resolution for unknown ledger id ignored"
  | notChoosable .. => "resolution for non-choosable entry ignored"
  | passComplete .. => "merge pass complete"
  | resolutionsLoaded count => "Loaded " ++ toString count ++ " resolutions"
  | languageSelected .. => "Selected input language"
  | sourceWritten path => "Merged source written to " ++ path
  | mergeFinished .. => "Merge finished"

/-- The fields of an event in order. -/
def fields : Event → List (String × FieldValue)
  | unknownChoice id choice => [("id", .number id), ("choice", .plain choice)]
  | recorded id kind name location =>
    [("id", .number id), ("kind", .plain kind.name), ("name", .quoted name),
     ("location", .quoted location)]
  | unknownId id choice => [("id", .number id), ("choice", .plain choice.name)]
  | notChoosable id kind => [("id", .number id), ("kind", .plain kind.name)]
  | passComplete pass language firstTypes secondTypes entries =>
    [("pass", .plain pass.name), ("lang", .plain language.name),
     ("first_types", .number firstTypes), ("second_types", .number secondTypes),
     ("entries", .number entries)]
  | resolutionsLoaded .. => []
  | languageSelected language => [("language", .plain language.name)]
  | sourceWritten .. => []
  | mergeFinished pass entries runId =>
    [("pass", .plain pass.name), ("entries", .number entries), ("run_id", .plain runId)]

/-- The event that records a ledger entry. -/
def ofEntry (e : LedgerEntry) : Event :=
  .recorded e.id e.kind e.name e.location

end Event

/-! ## Log lines -/

/-- A field's value as it is shown. -/
def FieldValue.text : FieldValue → String
  | number n => toString n
  | plain s => s
  | quoted s => Text.quote s

/-- An event as one line of a log. -/
def Event.line (e : Event) : String :=
  e.level.name ++ " " ++ e.target ++ ": " ++ Text.tame e.message
    ++ String.join (e.fields.map fun field => " " ++ field.1 ++ "=" ++ field.2.text) ++ "\n"

end ModuleMerge
