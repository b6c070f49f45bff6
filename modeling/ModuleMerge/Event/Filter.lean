import ModuleMerge.Event
import ModuleMerge.Text.Blank
import ModuleMerge.Text.Parts

/-!
# Which events are logged

A filter is written as rules between commas: `warn`, `declmerge=debug`, or `merge_engine` for
everything there. Of the rules whose target an event's target starts with, the one with the
longest target counts. A part that states no rule is passed over with a warning.

* `FilterRule.ofText` reads one rule, or tells why the text states none.
* `EventFilter.ofText` reads a filter, and `EventFilter.warnings` are the lines about the parts of
  it that are passed over.
* `EventFilter.passes` decides about an event.
-/

set_option autoImplicit false

namespace ModuleMerge

/-! ## Rules -/

/-- How much is logged of the events whose target starts with a text. -/
structure FilterRule where
  target : String
  /-- How many levels are logged, from errors on. -/
  levels : Nat
  deriving DecidableEq, Repr

/-- Why a text states no rule. -/
inductive FilterFault where
  /-- It begins as no level and no target does. -/
  | noRule
  /-- What is said of a target is no level. -/
  | noLevel
  deriving DecidableEq, Repr

/-- The fault in words. -/
def FilterFault.message : FilterFault → String
  | noRule => "invalid filter directive"
  | noLevel =>
    "error parsing level filter: expected one of \"off\", \"error\", \"warn\", \"info\", "
      ++ "\"debug\", \"trace\", or a number 0-5"

namespace FilterRule

/-- The number that digits stand for. A plus sign may be before them. -/
def numberOf? (word : List Char) : Option Nat :=
  let digits :=
    match word with
    | '+' :: digits => digits
    | digits => digits
  if digits ≠ [] && digits.all Char.isDigit then some (Nat.ofDigitChars 10 digits 0) else none

/-- The number of levels that a word or a number stands for. -/
def levelsOf? (word : List Char) : Option Nat :=
  match numberOf? word with
  | some n => if n ≤ Level.trace.rank then some n else none
  | none =>
    match String.ofList (Text.lowerAscii word) with
    | "off" => some 0
    | "error" => some Level.error.rank
    | "warn" => some Level.warn.rank
    | "info" => some Level.info.rank
    | "debug" => some Level.debug.rank
    | "trace" => some Level.trace.rank
    | _ => none

/-- The rule for all targets. -/
def forAll (levels : Nat) : FilterRule :=
  ⟨"", levels⟩

/-- The rule by which everything is logged of a target. -/
def everythingOf (target : List Char) : FilterRule :=
  ⟨String.ofList target, Level.trace.rank⟩

/-- Whether a rule can begin with a character. A bracket begins a rule about a span of time, of
which there are none here. Of the characters beyond ASCII, which no target here has, all can. -/
def canBegin (c : Char) : Bool :=
  c.isAlphanum || c ∈ ['-', ':', '_', '['] || 0x7F < c.toNat

/-- The rule that a text states: a level, a target and a level, or a target of which everything is
logged. The place of the equals sign is counted from behind the blanks in front of the text, and
the text with its blanks is cut at that place, so blanks become parts of the words. -/
def ofText (text : List Char) : Except FilterFault FilterRule :=
  match Text.trim text with
  | [] => .error .noRule
  | c :: cs =>
    if !canBegin c then .error .noRule
    else
      match (c :: cs).idxOf? '=' with
      | none => .ok ((levelsOf? text).elim (everythingOf text) forAll)
      | some place =>
        match text.drop (place + 1) with
        | [] => .ok (everythingOf (text.take place))
        | word =>
          match levelsOf? word with
          | some levels => .ok ⟨String.ofList (text.take place), levels⟩
          | none => .error .noLevel

/-- Whether the rule is about a target. -/
def covers (r : FilterRule) (target : String) : Bool :=
  r.target.toList.isPrefixOf target.toList

end FilterRule

/-! ## Filters -/

/-- The rules by which events are logged. -/
structure EventFilter where
  rules : List FilterRule
  deriving DecidableEq, Repr

namespace EventFilter

/-- The parts of a filter's text that may state a rule. -/
def parts (text : String) : List (List Char) :=
  (Text.parts ',' text.toList).filter (· ≠ [])

/-- The filter that a text states. Without any rule only errors are logged. -/
def ofText (text : String) : EventFilter :=
  match (parts text).filterMap fun part => (FilterRule.ofText part).toOption with
  | [] => ⟨[.forAll Level.error.rank]⟩
  | rules => ⟨rules⟩

/-- The lines about the parts of a filter's text that state no rule. -/
def warnings (text : String) : List String :=
  (parts text).filterMap fun part =>
    match FilterRule.ofText part with
    | .ok _ => none
    | .error e => some ("ignoring `" ++ String.ofList part ++ "`: " ++ e.message ++ "\n")

/-- The rule that counts for a target: of those with the longest target, the last. -/
def ruleFor? (f : EventFilter) (target : String) : Option FilterRule :=
  (f.rules.filter (·.covers target)).foldl
    (fun best? r =>
      match best? with
      | some best => if best.target.length ≤ r.target.length then some r else some best
      | none => some r)
    none

/-- Whether an event is logged. -/
def passes (f : EventFilter) (e : Event) : Bool :=
  match f.ruleFor? e.target with
  | some r => e.level.rank ≤ r.levels
  | none => false

end EventFilter

end ModuleMerge
