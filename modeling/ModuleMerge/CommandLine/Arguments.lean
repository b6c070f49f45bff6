import ModuleMerge.FileSystem.Path
import ModuleMerge.Language

/-!
# What a user asks for

The arguments of the program and what they mean. Options may stand anywhere after the command that
they belong to, with their values behind them or attached; each may be given once. Two dashes end
the options.

Questions for help are left out, with the texts that answer them: `--help`, `-h` and the command
`help` should print such a text and end well, and here they are arguments like any others that are
not understood. The version can be asked for before a command only.

* `Command` is what is to be done, and `Request` what the arguments ask for.
* `Collected.read` sorts the arguments of a command into options and plain values.
* `Request.ofArguments?` understands a whole command line, or does not.
-/

set_option autoImplicit false

namespace ModuleMerge
namespace CommandLine

/-! ## Requests -/

/-- Where the results of a merge go, and how its inputs are read. -/
structure Sinks where
  /-- The file for the merged source; by default it is printed. -/
  output : Option Path
  /-- The file for the report; by default it is printed apart from the source. -/
  log : Option Path
  language : Option Language
  deriving DecidableEq, Repr

/-- What is to be done. -/
inductive Command where
  /-- Merges two inputs, with the choices of a file if there is one. -/
  | merge (first second : Path) (resolutions : Option Path) (sinks : Sinks)
  /-- Asks the user for all choices, and then merges. -/
  | review (first second : Path) (saveResolutions : Option Path) (sinks : Sinks)
  /-- Writes a file with the default settings. -/
  | initConfig (path : Path)
  deriving DecidableEq, Repr

/-- What the arguments ask for. -/
inductive Request where
  | version
  | run (settings : Option Path) (command : Command)
  deriving DecidableEq, Repr

/-! ## Options -/

/-- The options there are. -/
inductive OptionName where
  | config
  | output
  | log
  | language
  | saveResolutions
  deriving DecidableEq, Repr

namespace OptionName

/-- The name of an option behind two dashes. -/
def long : OptionName → String
  | config => "config"
  | output => "output"
  | log => "log"
  | language => "language"
  | saveResolutions => "save-resolutions"

/-- The letter of an option behind one dash, if it has one. -/
def letter? : OptionName → Option Char
  | output => some 'o'
  | _ => none

/-- The known option with a name. -/
def withName? (known : List OptionName) (name : List Char) : Option OptionName :=
  known.find? fun o => o.long.toList = name

/-- The known option with a letter. -/
def withLetter? (known : List OptionName) (c : Char) : Option OptionName :=
  known.find? fun o => o.letter? = some c

end OptionName

/-- What one argument is. -/
inductive Argument where
  | value (text : String)
  | endOfOptions
  /-- An option, with a value if one is attached. -/
  | option (name : OptionName) (attached : Option String)
  | unknown
  deriving DecidableEq, Repr

namespace Argument

/-- What an argument is, if these options are known. A lone dash is a value. -/
def read (known : List OptionName) (text : String) : Argument :=
  match text.toList with
  | ['-', '-'] => endOfOptions
  | '-' :: '-' :: cs =>
    match OptionName.withName? known (cs.takeWhile (· ≠ '=')), cs.dropWhile (· ≠ '=') with
    | none, _ => unknown
    | some name, [] => option name none
    | some name, _ :: attached => option name (some (String.ofList attached))
  | '-' :: c :: cs =>
    match OptionName.withLetter? known c, cs with
    | none, _ => unknown
    | some name, [] => option name none
    | some name, '=' :: attached => option name (some (String.ofList attached))
    | some name, attached => option name (some (String.ofList attached))
  | _ => value text

end Argument

/-! ## Sorting arguments -/

/-- The options and the plain values among arguments. -/
structure Collected where
  options : List (OptionName × String)
  values : List String
  deriving DecidableEq, Repr

namespace Collected

/-- No arguments. -/
def empty : Collected := ⟨[], []⟩

/-- The value of an option. -/
def get? (c : Collected) (name : OptionName) : Option String :=
  c.options.lookup name

/-- With an option more, unless it is there already. -/
def insert? (c : Collected) (name : OptionName) (value : String) : Option Collected :=
  match c.get? name with
  | some _ => none
  | none => some { c with options := c.options ++ [(name, value)] }

/-- With more plain values. -/
def addValues (c : Collected) (values : List String) : Collected :=
  { c with values := c.values ++ values }

/-- The arguments behind those that were collected. -/
def read (known : List OptionName) : List String → Collected → Option Collected
  | [], c => some c
  | text :: texts, c =>
    match Argument.read known text with
    | .unknown => none
    | .endOfOptions => some (c.addValues texts)
    | .value v => read known texts (c.addValues [v])
    | .option name (some attached) =>
      match c.insert? name attached with
      | none => none
      | some c => read known texts c
    | .option name none =>
      match texts with
      | [] => none
      | next :: texts =>
        match Argument.read known next, c.insert? name next with
        | .value _, some c => read known texts c
        | _, _ => none

end Collected

/-! ## Meaning -/

/-- The path that an argument names. The empty text names none. -/
def pathOf? (text : String) : Option Path :=
  if text = "" then none else some ⟨text⟩

/-- The value of an option that may be left out, if it can be read. -/
def optional? {α : Type} (c : Collected) (name : OptionName) (read : String → Option α) :
    Option (Option α) :=
  match c.get? name with
  | none => some none
  | some text => (read text).map some

/-- The sinks that the options name. -/
def sinksOf? (c : Collected) : Option Sinks := do
  let output ← optional? c .output pathOf?
  let log ← optional? c .log pathOf?
  let language ← optional? c .language Language.ofName?
  pure ⟨output, log, language⟩

/-- The options of all commands that have sinks. -/
def sinkOptions : List OptionName :=
  [.config, .output, .log, .language]

/-- The command with a name and its arguments, and the settings file that is named among them. -/
def commandOf? (name : String) (texts : List String) : Option (Command × Option Path) :=
  match name with
  | "merge" => do
    let c ← Collected.read sinkOptions texts .empty
    let sinks ← sinksOf? c
    let settings ← optional? c .config pathOf?
    match ← c.values.mapM pathOf? with
    | [first, second] => pure (.merge first second none sinks, settings)
    | [first, second, resolutions] =>
      pure (.merge first second (some resolutions) sinks, settings)
    | _ => none
  | "review" => do
    let c ← Collected.read (.saveResolutions :: sinkOptions) texts .empty
    let sinks ← sinksOf? c
    let settings ← optional? c .config pathOf?
    let saveResolutions ← optional? c .saveResolutions pathOf?
    match ← c.values.mapM pathOf? with
    | [first, second] => pure (.review first second saveResolutions sinks, settings)
    | _ => none
  | "init-config" => do
    let c ← Collected.read [.config] texts .empty
    let settings ← optional? c .config pathOf?
    match ← c.values.mapM pathOf? with
    | [] => pure (.initConfig ⟨"declmerge.json"⟩, settings)
    | [path] => pure (.initConfig path, settings)
    | _ => none
  | _ => none

/-- Whether an argument asks for the version. -/
def asksForVersion (text : String) : Bool :=
  text = "--version" || ['-', 'V'].isPrefixOf text.toList

namespace Request

/-- What arguments ask for, with the settings file that was named before them. A settings file
that is named behind the command counts in place of it. Nobody is helped here: a question for help
is an argument that is not understood. -/
def read : List String → Option Path → Option Request
  | [], _ => none
  | text :: texts, settings =>
    if asksForVersion text then some .version
    else
      match Argument.read [.config] text with
      | .value name => do
        let (command, inner) ← commandOf? name texts
        pure (.run (inner.or settings) command)
      | .option _ (some attached) =>
        match settings, pathOf? attached with
        | none, some path => read texts (some path)
        | _, _ => none
      | .option _ none =>
        match texts with
        | [] => none
        | next :: texts =>
          match settings, Argument.read [.config] next, pathOf? next with
          | none, .value _, some path => read texts (some path)
          | _, _, _ => none
      | _ => none

/-- What the arguments of the program ask for, if they can be understood. -/
def ofArguments? (texts : List String) : Option Request :=
  read texts none

end Request

end CommandLine
end ModuleMerge
