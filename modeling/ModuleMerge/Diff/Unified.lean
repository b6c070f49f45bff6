import ModuleMerge.Diff.Compaction
import ModuleMerge.Diff.Shortest

/-!
# Unified diffs

The difference of two texts as hunks of changed lines with three lines of context.

* `endedLines` cuts a text into lines, each with what ends it.
* `hunks` groups the runs of a script that are close to each other.
* `unified` is the diff of two texts; it is empty for equal ones.
-/

set_option autoImplicit false

namespace ModuleMerge
namespace Diff

/-! ## Lines -/

/-- The lines of a text. A carriage return and a line feed, or either of them alone, end a line
and belong to it; a last line may have no end. -/
def endedLines : List Char → List (List Char)
  | [] => []
  | '\r' :: '\n' :: cs => ['\r', '\n'] :: endedLines cs
  | c :: cs =>
    if c = '\n' ∨ c = '\r' then
      [c] :: endedLines cs
    else
      match endedLines cs with
      | [] => [[c]]
      | line :: lines => (c :: line) :: lines

/-- Whether a line has an end of its own. -/
def isEnded (line : List Char) : Bool :=
  match line.getLast? with
  | some c => c = '\n' || c = '\r'
  | none => false

/-! ## Hunks -/

/-- How many unchanged lines surround a change. -/
def contextLines : Nat := 3

/-- A script whose first run, if it stays, keeps only its last lines. -/
def trimFront : Script → Script
  | [] => []
  | run :: rest =>
    if run.kind = .equal then run.shrinkDown (run.size - contextLines) :: rest else run :: rest

/-- A script whose last run, if it stays, keeps only its first lines. -/
def trimBack : Script → Script
  | [] => []
  | [run] => if run.kind = .equal then [run.shrinkUp (run.size - contextLines)] else [run]
  | run :: rest => run :: trimBack rest

/-- Cuts a script inside every long run that stays; `group` holds the runs since the last cut. -/
def cutGroups (group : Script) : Script → List Script
  | [] => [group]
  | run :: rest =>
    if run.kind = .equal ∧ 2 * contextLines < run.size then
      (group ++ [run.shrinkUp (run.size - contextLines)])
        :: cutGroups [run.shrinkDown (run.size - contextLines)] rest
    else
      cutGroups (group ++ [run]) rest

/-- Whether a group holds a change. -/
def hasChange (group : Script) : Bool :=
  match group with
  | [] => false
  | [run] => run.kind ≠ .equal
  | _ => true

/-- The groups of runs of a script that make its hunks. Only the last group can hold no change. -/
def hunks (script : Script) : List Script :=
  match script with
  | [] => []
  | _ =>
    let groups := cutGroups [] (trimBack (trimFront script))
    match groups.getLast? with
    | some last => if hasChange last then groups else groups.dropLast
    | none => []

/-! ## Text -/

/-- A stretch of lines in a hunk's heading: the number of the first line, and how many there are
unless it is one. An empty stretch has the number of the line before it. -/
def stretchText (start stop : Nat) : String :=
  let length := stop - start
  if length = 1 then toString (start + 1)
  else if length = 0 then toString start ++ ",0"
  else toString (start + 1) ++ "," ++ toString length

/-- The heading of a hunk. -/
def hunkHeading (group : Script) : String :=
  match group.head?, group.getLast? with
  | some first, some last =>
    "@@ -" ++ stretchText first.old.start last.old.stop
      ++ " +" ++ stretchText first.new.start last.new.stop ++ " @@\n"
  | _, _ => ""

/-- One line with its mark. A line without an end gets a remark. -/
def markedLine (mark : String) (line : List Char) : String :=
  mark ++ String.ofList line
    ++ (if isEnded line then "" else "\n\\ No newline at end of file\n")

/-- The lines of a stretch with one mark. -/
def markedLines (mark : String) (lines : Array (List Char)) (s : Stretch) : String :=
  String.join ((lines.extract s.start s.stop).toList.map (markedLine mark))

/-- The lines of a run. -/
def runText (old new : Array (List Char)) (run : Run) : String :=
  match run.kind with
  | .equal => markedLines " " old run.old
  | .delete => markedLines "-" old run.old
  | .insert => markedLines "+" new run.new
  | .replace => markedLines "-" old run.old ++ markedLines "+" new run.new

/-- A hunk with its heading. -/
def hunkText (old new : Array (List Char)) (group : Script) : String :=
  hunkHeading group ++ String.join (group.map (runText old new))

/-- The script of two texts' lines, compacted and joined. -/
def lineScript (old new : Array (List Char)) : Script :=
  ((shortestScript old new).compact old new).joined

/-- The unified diff of two texts, with the names of the two sides. -/
def unified (oldName newName : String) (old new : String) : String :=
  let oldLines := (endedLines old.toList).toArray
  let newLines := (endedLines new.toList).toArray
  match hunks (lineScript oldLines newLines) with
  | [] => ""
  | groups =>
    "--- " ++ oldName ++ "\n+++ " ++ newName ++ "\n"
      ++ String.join (groups.map (hunkText oldLines newLines))

end Diff
end ModuleMerge
