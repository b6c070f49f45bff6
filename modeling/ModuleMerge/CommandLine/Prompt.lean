import ModuleMerge.Ledger
import ModuleMerge.Resolution.Choice

/-!
# Questions to the user

Questions are answered by single keys. An answer comes with the keys that are left after it; there
is none when the keys end first.

* `Choice.suggested` is where a question about a difference starts.
* `pickChoice` asks for a choice, and `confirm` asks whether to go on.
-/

set_option autoImplicit false

namespace ModuleMerge

namespace Choice

/-- The choice below one in the list, and the first below the last. -/
def below : Choice → Choice
  | keepFirst => keepSecond
  | keepSecond => keepBoth
  | keepBoth => keepFirst

/-- The choice above one in the list, and the last above the first. -/
def above : Choice → Choice
  | keepFirst => keepBoth
  | keepSecond => keepFirst
  | keepBoth => keepSecond

/-- The choice that a question starts at. It does what would be done without an answer. -/
def suggested : DifferenceKind → Choice
  | .methodDuplicate => keepSecond
  | .methodConflict | .methodAdded | .typeAdded => keepBoth

/-! ## Small facts -/

@[simp] theorem above_below (c : Choice) : c.below.above = c := by
  cases c <;> rfl

@[simp] theorem below_above (c : Choice) : c.above.below = c := by
  cases c <;> rfl

end Choice

namespace CommandLine

/-- The choice that keys pick in a list, from the one it starts at: `j` goes down, `k` goes up, and
a blank or the end of the line picks. -/
def pickChoice (start : Choice) : List Char → Option (Choice × List Char)
  | [] => none
  | key :: keys =>
    if key = '\n' || key = ' ' then some (start, keys)
    else if key = 'j' then pickChoice start.below keys
    else if key = 'k' then pickChoice start.above keys
    else pickChoice start keys

/-- The answer that keys give to a question that is not meant to be agreed to without a thought:
the end of the line means no. -/
def confirm : List Char → Option (Bool × List Char)
  | [] => none
  | key :: keys =>
    if key = 'y' || key = 'Y' then some (true, keys)
    else if key = 'n' || key = 'N' || key = '\n' then some (false, keys)
    else confirm keys

end CommandLine
end ModuleMerge
