import ModuleMerge.Matching
import ModuleMerge.Resolution.Choice

/-!
# From matches to edits

Every conflict and duplicate takes the user's choice for its id, or its default. Added methods and
types are always taken in.

| disposition | first input's method        | second input's method                      |
|-------------|-----------------------------|--------------------------------------------|
| keep both   | kept, "from first input"    | appended, "from second input"              |
| deduplicate | dropped                     | appended, "duplicate, kept from second..." |
| keep first  | kept as it is               | left out                                   |
| keep second | dropped                     | appended, "chosen: second input"           |

* `Decision` says what was done with a conflict or duplicate and who decided it.
* `TypeEdit` says what happens to the methods of one type, and `EditPlan` to a whole module.
* `Resolver.resolve` makes the edit plan of a match plan.
-/

set_option autoImplicit false

namespace ModuleMerge

/-! ## Decisions -/

/-- What is done with a conflict or duplicate. -/
inductive Disposition where
  | keepFirst
  | keepSecond
  | keepBoth
  | deduplicate
  deriving DecidableEq, Repr

/-- The word for a disposition. -/
def Disposition.name : Disposition → String
  | keepFirst => "KeepFirst"
  | keepSecond => "KeepSecond"
  | keepBoth => "KeepBoth"
  | deduplicate => "Deduplicate"

/-- The disposition that a choice asks for. -/
def Choice.disposition : Choice → Disposition
  | keepFirst => .keepFirst
  | keepSecond => .keepSecond
  | keepBoth => .keepBoth

/-- Who decided: the user, or the kind's strategy. -/
inductive DecisionSource where
  | explicit
  | byDefault
  deriving DecidableEq, Repr

/-- The word for a source. -/
def DecisionSource.name : DecisionSource → String
  | explicit => "explicit"
  | byDefault => "default"

/-- What was done with a conflict or duplicate. -/
structure Decision where
  id : Nat
  disposition : Disposition
  source : DecisionSource
  deriving DecidableEq, Repr

/-! ## Notes -/

/-- Where a declaration of the merged module comes from. -/
inductive Provenance where
  | addedFromSecond
  | duplicateKeptFromSecond
  | chosenSecond
  | fromFirst
  | fromSecond
  deriving DecidableEq, Repr

/-- A provenance in words. -/
def Provenance.text : Provenance → String
  | addedFromSecond => "added from second input"
  | duplicateKeptFromSecond => "duplicate, kept from second input"
  | chosenSecond => "chosen: second input"
  | fromFirst => "from first input"
  | fromSecond => "from second input"

/-- The note on a declaration: the tag, the id and the provenance. -/
def note (tag : String) (id : Nat) (provenance : Provenance) : String :=
  tag ++ " #" ++ toString id ++ ": " ++ provenance.text

/-! ## Edits -/

/-- What happens to a member of the first input that does not stay as it is. -/
inductive Fate where
  | drop
  | annotate (note : String)
  deriving DecidableEq, Repr

/-- What happens to a type of both inputs. -/
structure TypeEdit where
  /-- The fates of the first input's members, by their places in the type's body. The first pair
  for a place counts; a member without one stays as it is. -/
  fates : List (Nat × Fate)
  /-- The second input's members that follow those of the first, in order. -/
  appended : List Entry

namespace TypeEdit

/-- The edit that changes nothing. -/
def empty : TypeEdit := ⟨[], []⟩

/-- The fate of the member at a place. -/
def fate? (edit : TypeEdit) (position : Nat) : Option Fate :=
  (edit.fates.find? fun pair => pair.1 = position).map Prod.snd

/-- The edit with the fate of one place set, over an earlier one. -/
def setFate (edit : TypeEdit) (position : Nat) (fate : Fate) : TypeEdit :=
  { edit with fates := (position, fate) :: edit.fates.filter fun pair => pair.1 ≠ position }

/-- The edit with one more member appended. -/
def append (edit : TypeEdit) (entry : Entry) : TypeEdit :=
  { edit with appended := edit.appended ++ [entry] }

end TypeEdit

/-- A type of the second input that goes into the namespace with a path. -/
structure Insertion where
  path : String
  entry : Entry

/-- Everything that a merge changes in the first input. -/
structure EditPlan where
  /-- The edits by the qualified names of their types, each name once. -/
  edits : List (String × TypeEdit)
  insertions : List Insertion
  decisions : List Decision

namespace EditPlan

/-- The plan that changes nothing. -/
def empty : EditPlan := ⟨[], [], []⟩

/-- The edit of a type; the one that changes nothing if the plan has none for the name. -/
def edit (plan : EditPlan) (qualified : String) : TypeEdit :=
  ((plan.edits.find? fun pair => pair.1 = qualified).map Prod.snd).getD .empty

/-- Sets the edit of a name, in its place or at the end. -/
def setPair (qualified : String) (edit : TypeEdit) :
    List (String × TypeEdit) → List (String × TypeEdit)
  | [] => [(qualified, edit)]
  | pair :: rest =>
    if pair.1 = qualified then (qualified, edit) :: rest
    else pair :: setPair qualified edit rest

end EditPlan

/-! ## Resolving -/

/-- What decides conflicts and duplicates: the tag of the notes, and the user's choices. A detect
pass has none. -/
structure Resolver where
  tag : String
  resolutions : Option Resolutions

namespace Resolver

/-- The decision on one id. -/
def decide (r : Resolver) (id : Nat) (byDefault : Disposition) : Decision :=
  match r.resolutions.bind (·.get? id) with
  | some choice => ⟨id, choice.disposition, .explicit⟩
  | none => ⟨id, byDefault, .byDefault⟩

/-- The edit of a type after a decision on one method of both inputs. -/
def apply (r : Resolver) (d : Decision) (first second : Member) (edit : TypeEdit) : TypeEdit :=
  match d.disposition with
  | .keepFirst => edit
  | .keepSecond =>
    (edit.setFate first.position .drop).append
      (second.entry.annotated (note r.tag d.id .chosenSecond))
  | .keepBoth =>
    (edit.setFate first.position (.annotate (note r.tag d.id .fromFirst))).append
      (second.entry.annotated (note r.tag d.id .fromSecond))
  | .deduplicate =>
    (edit.setFate first.position .drop).append
      (second.entry.annotated (note r.tag d.id .duplicateKeptFromSecond))

/-- The edit of a type after one matched method, and the decision if there was one to take. -/
def resolveMember (r : Resolver) (edit : TypeEdit) : MemberMatch → TypeEdit × Option Decision
  | .added id second =>
    (edit.append (second.entry.annotated (note r.tag id .addedFromSecond)), none)
  | .duplicate id first second =>
    let d := r.decide id .deduplicate
    (r.apply d first second edit, some d)
  | .conflict id first second =>
    let d := r.decide id .keepBoth
    (r.apply d first second edit, some d)

/-- The edit of a type after a row of matched methods, and their decisions in order. -/
def resolveMembers (r : Resolver) : TypeEdit → List MemberMatch → TypeEdit × List Decision
  | edit, [] => (edit, [])
  | edit, m :: ms =>
    let head := r.resolveMember edit m
    let tail := r.resolveMembers head.1 ms
    (tail.1, head.2.toList ++ tail.2)

/-- The plan after one matched type. Declarations of one type share an edit. -/
def resolveType (r : Resolver) (plan : EditPlan) : TypeMatch → EditPlan
  | .added id path entry =>
    { plan with
      insertions :=
        plan.insertions ++ [⟨path, entry.annotated (note r.tag id .addedFromSecond)⟩] }
  | .shared qualified members =>
    let step := r.resolveMembers (plan.edit qualified) members
    { plan with
      edits := EditPlan.setPair qualified step.1 plan.edits
      decisions := plan.decisions ++ step.2 }

/-- The edit plan of a match plan. -/
def resolve (r : Resolver) (plan : MatchPlan) : EditPlan :=
  plan.types.foldl r.resolveType .empty

end Resolver

end ModuleMerge
