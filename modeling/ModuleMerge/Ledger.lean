import ModuleMerge.Diff.Unified

/-!
# The ledger of a merge

A record of every difference between two modules, in the order in which they are met. Its ids are
1, 2, 3 and so on, so two runs over the same inputs number their differences alike.

* `DifferenceKind` says what differs, and `DifferenceKind.strategy` what is done by default.
* `LedgerEntry` is one difference; `LedgerEntry.withoutBodies` leaves its bodies out, and
  `LedgerEntry.bodyDiff?` compares them line by line.
* `Ledger.record` appends a difference under the next id, and `Ledger.get?` finds one by its id.
-/

set_option autoImplicit false

namespace ModuleMerge

/-! ## Kinds and strategies -/

/-- What is done with a difference that nobody decides. -/
inductive Strategy where
  /-- Both variants are kept, each with a note. -/
  | keepBoth
  /-- One copy is kept, the second input's. -/
  | deduplicate
  /-- The second input's declaration is added; there is nothing to choose. -/
  | append
  deriving DecidableEq, Repr

/-- The word for a strategy. -/
def Strategy.name : Strategy → String
  | keepBoth => "KeepBoth"
  | deduplicate => "Deduplicate"
  | append => "Append"

/-- What differs between the two inputs. -/
inductive DifferenceKind where
  /-- A method of both inputs, with two bodies. -/
  | methodConflict
  /-- A method of both inputs, with one body. -/
  | methodDuplicate
  /-- A method of the second input only. -/
  | methodAdded
  /-- A type of the second input only. -/
  | typeAdded
  deriving DecidableEq, Repr

namespace DifferenceKind

/-- The word for a kind. -/
def name : DifferenceKind → String
  | methodConflict => "MethodConflict"
  | methodDuplicate => "MethodDuplicate"
  | methodAdded => "MethodAdded"
  | typeAdded => "ClassAdded"

/-- Whether a user may choose a side. -/
def isChoosable : DifferenceKind → Bool
  | methodConflict | methodDuplicate => true
  | methodAdded | typeAdded => false

/-- What is done by default. -/
def strategy : DifferenceKind → Strategy
  | methodConflict => .keepBoth
  | methodDuplicate => .deduplicate
  | methodAdded | typeAdded => .append

end DifferenceKind

/-! ## Entries -/

/-- A difference as it is met, before it has an id. -/
structure Difference where
  kind : DifferenceKind
  /-- The name of the method, or of the added type. -/
  name : String
  /-- The qualified name of the type that holds the method, or of the added type. -/
  location : String
  signature : Option String := none
  firstBody : Option String := none
  secondBody : Option String := none
  deriving DecidableEq, Repr

/-- A difference in the ledger. -/
structure LedgerEntry where
  id : Nat
  kind : DifferenceKind
  name : String
  location : String
  strategy : Strategy
  signature : Option String
  firstBody : Option String
  secondBody : Option String
  deriving DecidableEq, Repr

namespace LedgerEntry

/-- The entry that records a difference under an id, with its kind's strategy. -/
def ofDifference (id : Nat) (d : Difference) : LedgerEntry where
  id := id
  kind := d.kind
  name := d.name
  location := d.location
  strategy := d.kind.strategy
  signature := d.signature
  firstBody := d.firstBody
  secondBody := d.secondBody

/-- The entry without the two bodies. -/
def withoutBodies (e : LedgerEntry) : LedgerEntry :=
  { e with firstBody := none, secondBody := none }

/-- The unified diff from the first body to the second, if both are recorded. -/
def bodyDiff? (e : LedgerEntry) : Option String := do
  let first ← e.firstBody
  let second ← e.secondBody
  pure (Diff.unified "first" "second" first second)

/-- Whether a user may choose a side. -/
def isChoosable (e : LedgerEntry) : Bool :=
  e.kind.isChoosable

end LedgerEntry

/-! ## The ledger -/

/-- The differences of one merge in the order of their ids. -/
structure Ledger where
  entries : List LedgerEntry
  deriving DecidableEq, Repr

namespace Ledger

/-- The ledger without entries. -/
def empty : Ledger := ⟨[]⟩

/-- The number of entries. -/
def size (l : Ledger) : Nat :=
  l.entries.length

/-- The id that the next difference gets: the number of entries and one. -/
def nextId (l : Ledger) : Nat :=
  l.size + 1

/-- The ledger with one more difference, under the next id. -/
def record (l : Ledger) (d : Difference) : Ledger :=
  ⟨l.entries ++ [LedgerEntry.ofDifference l.nextId d]⟩

/-- The entry at the place that an id names: the first for id 1, nothing for id 0. -/
def get? (l : Ledger) (id : Nat) : Option LedgerEntry :=
  match id with
  | 0 => none
  | place + 1 => l.entries[place]?

/-- The entries for which a user may choose a side. -/
def choosable (l : Ledger) : List LedgerEntry :=
  l.entries.filter (·.isChoosable)

/-- The number of entries of one kind. -/
def count (l : Ledger) (kind : DifferenceKind) : Nat :=
  l.entries.countP (·.kind = kind)

/-! ## Small facts -/

@[simp] theorem size_record (l : Ledger) (d : Difference) : (l.record d).size = l.size + 1 := by
  simp [record, size]

/-- What was just recorded is found under the id it got. -/
theorem get?_record (l : Ledger) (d : Difference) :
    (l.record d).get? l.nextId = some (LedgerEntry.ofDifference l.nextId d) := by
  simp [record, get?, nextId, size]

end Ledger

end ModuleMerge
