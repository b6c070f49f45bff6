import ModuleMerge.Diff.Script

/-!
# Compacting edit scripts

A change can often stand in several places: when the lines before it end like the change itself,
it may as well start earlier. Compaction moves each change as far up and then as far down as it
goes, and joins those that meet on the way.

* `shiftUp` and `shiftDown` move one run over its neighbours. The script is held as the runs
  before the moving one, the nearest first, and the runs after it.
* `compactKind` does so for every run of one kind, and `Script.compact` for deletions and then
  for insertions.
-/

set_option autoImplicit false

namespace ModuleMerge
namespace Diff

namespace Stretch

/-- A stretch that starts earlier, with the same length. -/
def earlier (s : Stretch) (n : Nat) : Stretch :=
  ⟨s.start - n, s.length⟩

/-- A stretch that starts later, with the same length. -/
def later (s : Stretch) (n : Nat) : Stretch :=
  ⟨s.start + n, s.length⟩

end Stretch

namespace Run

/-- A run moved up on both sides. -/
def earlier (r : Run) (n : Nat) : Run :=
  { r with old := r.old.earlier n, new := r.new.earlier n }

/-- A run moved down on both sides. -/
def later (r : Run) (n : Nat) : Run :=
  { r with old := r.old.later n, new := r.new.later n }

/-- A run with more lines before it on both sides. -/
def growUp (r : Run) (n : Nat) : Run :=
  { r with
    old := ⟨r.old.start - n, r.old.length + n⟩
    new := ⟨r.new.start - n, r.new.length + n⟩ }

/-- A run with more lines after it on both sides. -/
def growDown (r : Run) (n : Nat) : Run :=
  { r with
    old := ⟨r.old.start, r.old.length + n⟩
    new := ⟨r.new.start, r.new.length + n⟩ }

/-- A run without its last lines on both sides. -/
def shrinkUp (r : Run) (n : Nat) : Run :=
  { r with old := r.old.dropLast n, new := r.new.dropLast n }

/-- A run without its first lines on both sides. -/
def shrinkDown (r : Run) (n : Nat) : Run :=
  { r with old := r.old.dropFirst n, new := r.new.dropFirst n }

/-- Puts lines that stay before a row of runs, into its first run if that stays too. -/
def putBefore (stay : Run) : List Run → List Run
  | [] => [stay]
  | r :: rest => if r.kind = .equal then r.growUp stay.old.length :: rest else stay :: r :: rest

/-- Puts lines that stay after a row of runs whose nearest comes first. -/
def putAfter (stay : Run) : List Run → List Run
  | [] => [stay]
  | r :: rest => if r.kind = .equal then r.growDown stay.old.length :: rest else stay :: r :: rest

/-- A row of runs with one more in front, unless that has no lines. -/
def consUnlessEmpty (r : Run) (rest : List Run) : List Run :=
  if r.size = 0 then rest else r :: rest

end Run

/-- A script around a moving run: the runs before it, the nearest first, and those after it. -/
structure Around where
  before : List Run
  run : Run
  after : List Run

/-- The work that moving over a row of runs can take: one step for each run and each line. -/
def shiftFuel (runs : List Run) : Nat :=
  runs.foldl (fun fuel r => fuel + r.size + 1) 1

section Shift

variable {α : Type} [BEq α] (old new : Array α)

/-- Moves a run up as far as it goes. -/
def shiftUp : Nat → Around → Around
  | 0, a => a
  | _ + 1, ⟨[], run, after⟩ => ⟨[], run, after⟩
  | fuel + 1, ⟨previous :: before, run, after⟩ =>
    if previous.kind = .equal then
      let common := suffixLength old new previous.old run.new
      if common = 0 then
        if previous.size = 0 then shiftUp fuel ⟨before, run, after⟩
        else ⟨previous :: before, run, after⟩
      else
        let stay := Run.equal (previous.old.stop - common) (run.new.stop - common) common
        shiftUp fuel
          ⟨Run.consUnlessEmpty (previous.shrinkUp common) before, run.earlier common,
            Run.putBefore stay after⟩
    else if previous.kind = run.kind then
      shiftUp fuel ⟨before, previous.append run, after⟩
    else
      shiftUp fuel ⟨before, run, previous :: after⟩

/-- Moves a run down as far as it goes. -/
def shiftDown : Nat → Around → Around
  | 0, a => a
  | _ + 1, ⟨before, run, []⟩ => ⟨before, run, []⟩
  | fuel + 1, ⟨before, run, next :: after⟩ =>
    if next.kind = .equal then
      let common := prefixLength old new next.old run.new
      if common = 0 then
        if next.size = 0 then shiftDown fuel ⟨before, run, after⟩
        else ⟨before, run, next :: after⟩
      else
        let stay := Run.equal next.old.start run.new.start common
        shiftDown fuel
          ⟨Run.putAfter stay before, run.later common,
            Run.consUnlessEmpty (next.shrinkDown common) after⟩
    else if next.kind = run.kind then
      shiftDown fuel ⟨before, run.append next, after⟩
    else
      shiftDown fuel ⟨next :: before, run, after⟩

/-- Moves every run of one kind up and down, from the first to the last. `before` holds the runs
already passed, the nearest first. No step adds a change, so `fuel` above the number of runs and
lines is never used up. -/
def compactKind (kind : RunKind) : Nat → List Run → List Run → Script
  | 0, before, after => before.reverse ++ after
  | _ + 1, before, [] => before.reverse
  | fuel + 1, before, run :: after =>
    if run.kind = kind then
      let up := shiftUp old new (shiftFuel before) ⟨before, run, after⟩
      let down := shiftDown old new (shiftFuel up.after) up
      compactKind kind fuel (down.run :: down.before) down.after
    else
      compactKind kind fuel (run :: before) after

/-- A script with its changes moved: the deletions first, then the insertions. -/
def Script.compact (script : Script) : Script :=
  let deletions := compactKind old new .delete (shiftFuel script) [] script
  compactKind old new .insert (shiftFuel deletions) [] deletions

end Shift

end Diff
end ModuleMerge
