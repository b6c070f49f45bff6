import ModuleMerge.Diff.Script

/-!
# Shortest edit scripts

Myers' linear-space search. Two ranges are stripped of what they start and end with in common;
what is left is cut in two where a shortest script passes its middle, and both parts are treated
alike.

* `Reach` holds how far the paths on each diagonal have come.
* `middle?` finds where a shortest script passes its middle.
* `shortestScript` is the script of two whole texts.
-/

set_option autoImplicit false

namespace ModuleMerge
namespace Diff

/-! ## Diagonals -/

/-- The furthest old index reached on every diagonal from `-span` to `span`. -/
structure Reach where
  span : Nat
  cells : Array Nat

namespace Reach

/-- No diagonal has come further than the start. -/
def zero (span : Nat) : Reach :=
  ⟨span, Array.replicate (2 * span + 1) 0⟩

/-- Where a diagonal has come to. -/
def get (r : Reach) (k : Int) : Nat :=
  r.cells.getD (k + r.span).toNat 0

/-- Sets where a diagonal has come to. -/
def set (r : Reach) (k : Int) (x : Nat) : Reach :=
  { r with cells := r.cells.setIfInBounds (k + r.span).toNat x }

/-- Where a path of `depth` changes comes to on a diagonal before it follows equal lines: from the
diagonal above where that has come further or the diagonal below has none, else from the one
below. -/
def step (r : Reach) (depth : Nat) (k : Int) : Nat :=
  if k = -(depth : Int) ∨ (k ≠ depth ∧ r.get (k - 1) < r.get (k + 1)) then r.get (k + 1)
  else r.get (k - 1) + 1

end Reach

/-- The diagonals that a path of `depth` changes can end on, from the highest down. -/
def diagonals (depth : Nat) : List Int :=
  (List.range (depth + 1)).map fun (i : Nat) => (depth : Int) - 2 * i

/-! ## The middle -/

/-- The two ranges under comparison. -/
structure Ranges where
  old : Stretch
  new : Stretch

/-- What a sweep over the diagonals of one depth ends with. -/
inductive Sweep where
  /-- Forward and backward paths have met; a shortest script passes here. -/
  | met (old new : Nat)
  /-- They have not; this is how far the sweep's paths have come. -/
  | apart (reach : Reach)

section Search

variable {α : Type} [BEq α] (old new : Array α) (r : Ranges)

/-- By how much the old range is longer than the new one. -/
def Ranges.delta (r : Ranges) : Int :=
  (r.old.length : Int) - r.new.length

/-- Whether the two ranges differ in length by an odd number, so that paths meet while those from
the start are extended. -/
def Ranges.isOdd (r : Ranges) : Bool :=
  r.delta % 2 ≠ 0

/-- Extends the paths from the start over the diagonals of one depth. -/
def sweepForward (depth : Nat) (backward : Reach) : List Int → Reach → Sweep
  | [], forward => .apart forward
  | k :: ks, forward =>
    let x := forward.step depth k
    let y := ((x : Int) - k).toNat
    let ahead :=
      if x < r.old.length ∧ y < r.new.length then
        prefixLength old new (r.old.dropFirst x) (r.new.dropFirst y)
      else 0
    let forward := forward.set k (x + ahead)
    if r.isOdd ∧ (k - r.delta).natAbs + 1 ≤ depth
        ∧ r.old.length ≤ forward.get k + backward.get (-(k - r.delta)) then
      .met (r.old.start + x) (r.new.start + y)
    else
      sweepForward depth backward ks forward

/-- Extends the paths from the end over the diagonals of one depth. -/
def sweepBackward (depth : Nat) (forward : Reach) : List Int → Reach → Sweep
  | [], backward => .apart backward
  | k :: ks, backward =>
    let x := backward.step depth k
    let y := ((x : Int) - k).toNat
    let ahead :=
      if x < r.old.length ∧ y < r.new.length then
        suffixLength old new (r.old.dropLast x) (r.new.dropLast y)
      else 0
    let x := x + ahead
    let y := y + ahead
    let backward := backward.set k x
    if !r.isOdd ∧ (k - r.delta).natAbs ≤ depth
        ∧ r.old.length ≤ backward.get k + forward.get (-(k - r.delta)) then
      .met (r.old.start + (r.old.length - x)) (r.new.start + (r.new.length - y))
    else
      sweepBackward depth forward ks backward

/-- Sweeps depth after depth, `rounds` times at most. -/
def searchMiddle : Nat → Nat → Reach → Reach → Option (Nat × Nat)
  | 0, _, _, _ => none
  | rounds + 1, depth, forward, backward =>
    match sweepForward old new r depth backward (diagonals depth) forward with
    | .met x y => some (x, y)
    | .apart forward =>
      match sweepBackward old new r depth forward (diagonals depth) backward with
      | .met x y => some (x, y)
      | .apart backward => searchMiddle rounds (depth + 1) forward backward

/-- Where a shortest script of two ranges passes its middle. -/
def middle? : Option (Nat × Nat) :=
  let rounds := (r.old.length + r.new.length + 1) / 2 + 1
  searchMiddle old new r rounds 0 (.zero (rounds + 1)) (.zero (rounds + 1))

end Search

/-! ## The script -/

/-- The lines that stay, if there are any. -/
def equalRun (old new length : Nat) : Script :=
  if length = 0 then [] else [.equal old new length]

/-- A shortest script of two ranges. Every cut leaves two smaller pairs of ranges, so `fuel` above
the number of lines is never used up. -/
def shortestOf {α : Type} [BEq α] (old new : Array α) : Nat → Ranges → Script
  | 0, r => [.delete r.old r.new.start, .insert r.old.start r.new]
  | fuel + 1, r =>
    let front := prefixLength old new r.old r.new
    let r' : Ranges := ⟨r.old.dropFirst front, r.new.dropFirst front⟩
    let back := suffixLength old new r'.old r'.new
    let inner : Ranges := ⟨r'.old.dropLast back, r'.new.dropLast back⟩
    let changes : Script :=
      if inner.old.length = 0 ∧ inner.new.length = 0 then []
      else if inner.new.length = 0 then [.delete inner.old inner.new.start]
      else if inner.old.length = 0 then [.insert inner.old.start inner.new]
      else
        match middle? old new inner with
        | some (x, y) =>
          shortestOf old new fuel ⟨inner.old.before x, inner.new.before y⟩
            ++ shortestOf old new fuel ⟨inner.old.startingAt x, inner.new.startingAt y⟩
        | none => [.delete inner.old inner.new.start, .insert inner.old.start inner.new]
    equalRun r.old.start r.new.start front ++ changes
      ++ equalRun inner.old.stop inner.new.stop back

/-- A shortest script from all old lines to all new ones. -/
def shortestScript {α : Type} [BEq α] (old new : Array α) : Script :=
  shortestOf old new (old.size + new.size + 1) ⟨⟨0, old.size⟩, ⟨0, new.size⟩⟩

end Diff
end ModuleMerge
