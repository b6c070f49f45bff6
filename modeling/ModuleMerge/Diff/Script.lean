/-!
# Edit scripts

How one row of lines becomes another: runs of lines that stay, go, come, or take the place of
others. A run knows where its lines stand on both sides.

* `Run` is one such run.
* `prefixLength` and `suffixLength` count the lines that two ranges have in common at their start
  and at their end.
* `Script.joined` puts neighbouring runs of the same kind together and makes a replacement of a
  deletion and an insertion with no line between them that stays.
-/

set_option autoImplicit false

namespace ModuleMerge
namespace Diff

/-- What a run does with its lines. -/
inductive RunKind where
  | equal
  | delete
  | insert
  | replace
  deriving DecidableEq, Repr

/-- A stretch of lines on either side. -/
structure Stretch where
  start : Nat
  length : Nat
  deriving DecidableEq, Repr

namespace Stretch

/-- The first index after a stretch. -/
def stop (s : Stretch) : Nat :=
  s.start + s.length

/-- A stretch without its first lines. -/
def dropFirst (s : Stretch) (n : Nat) : Stretch :=
  ⟨s.start + n, s.length - n⟩

/-- A stretch without its last lines. -/
def dropLast (s : Stretch) (n : Nat) : Stretch :=
  ⟨s.start, s.length - n⟩

/-- The part of a stretch before an index. -/
def before (s : Stretch) (index : Nat) : Stretch :=
  ⟨s.start, index - s.start⟩

/-- The part of a stretch from an index on. -/
def startingAt (s : Stretch) (index : Nat) : Stretch :=
  ⟨index, s.stop - index⟩

end Stretch

/-- A run of an edit script: `old` lines of the one side against `new` lines of the other. -/
structure Run where
  kind : RunKind
  old : Stretch
  new : Stretch
  deriving DecidableEq, Repr

namespace Run

/-- Lines that stay. -/
def equal (old new length : Nat) : Run :=
  ⟨.equal, ⟨old, length⟩, ⟨new, length⟩⟩

/-- Lines that go, at an index of the other side. -/
def delete (old : Stretch) (new : Nat) : Run :=
  ⟨.delete, old, ⟨new, 0⟩⟩

/-- Lines that come, at an index of the other side. -/
def insert (old : Nat) (new : Stretch) : Run :=
  ⟨.insert, ⟨old, 0⟩, new⟩

/-- The number of lines of a run on its longer side. -/
def size (r : Run) : Nat :=
  max r.old.length r.new.length

end Run

/-- A row of runs that leads from all old lines to all new ones. -/
abbrev Script := List Run

/-! ## Common lines -/

section Common

variable {α : Type} [BEq α]

/-- Whether an old and a new line exist and are equal. -/
def sameLine (old new : Array α) (i j : Nat) : Bool :=
  match old[i]?, new[j]? with
  | some a, some b => a == b
  | _, _ => false

/-- How many of the next `limit` lines are equal from two indexes on. -/
def matchForward (old new : Array α) (i j : Nat) : Nat → Nat
  | 0 => 0
  | limit + 1 =>
    if sameLine old new i j then matchForward old new (i + 1) (j + 1) limit + 1 else 0

/-- How many of the last `limit` lines are equal before two indexes. -/
def matchBackward (old new : Array α) (i j : Nat) : Nat → Nat
  | 0 => 0
  | limit + 1 =>
    if sameLine old new (i - 1) (j - 1) then matchBackward old new (i - 1) (j - 1) limit + 1 else 0

/-- The number of equal lines that two stretches start with. -/
def prefixLength (old new : Array α) (s t : Stretch) : Nat :=
  matchForward old new s.start t.start (min s.length t.length)

/-- The number of equal lines that two stretches end with. -/
def suffixLength (old new : Array α) (s t : Stretch) : Nat :=
  matchBackward old new s.stop t.stop (min s.length t.length)

end Common

/-! ## Joining runs -/

/-- What stands between the last written run and the next: lines that stay, or lines that go or
come. -/
inductive Held where
  | none
  | equal (run : Run)
  | change (delete insert : Option Run)

/-- The runs that a held change is written as. -/
def Held.runs : Held → Script
  | none => []
  | equal run => [run]
  | change (some d) (some i) => [⟨.replace, d.old, i.new⟩]
  | change (some d) .none => [d]
  | change .none (some i) => [i]
  | change .none .none => []

/-- Two runs one after the other as one run of the first one's kind. -/
def Run.append (r s : Run) : Run :=
  ⟨r.kind, ⟨r.old.start, r.old.length + s.old.length⟩, ⟨r.new.start, r.new.length + s.new.length⟩⟩

/-- Writes a script while holding back what the next run may join. -/
def joinFrom : Held → Script → Script
  | held, [] => held.runs
  | held, run :: rest =>
    match run.kind, held with
    | .equal, .equal before => joinFrom (.equal (before.append run)) rest
    | .equal, held => held.runs ++ joinFrom (.equal run) rest
    | .delete, .change (some d) i => joinFrom (.change (some (d.append run)) i) rest
    | .delete, .change .none i => joinFrom (.change (some run) i) rest
    | .delete, held => held.runs ++ joinFrom (.change (some run) .none) rest
    | .insert, .change d (some i) => joinFrom (.change d (some (i.append run))) rest
    | .insert, .change d .none => joinFrom (.change d (some run)) rest
    | .insert, held => held.runs ++ joinFrom (.change .none (some run)) rest
    | .replace, held => held.runs ++ run :: joinFrom .none rest

/-- A script with its neighbouring runs joined. -/
def Script.joined (script : Script) : Script :=
  joinFrom .none script

end Diff
end ModuleMerge
