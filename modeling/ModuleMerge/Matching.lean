import ModuleMerge.Declaration.Index
import ModuleMerge.Ledger

/-!
# Matching two modules

The second input is walked in source order. A type is paired with the first input's type of the
same qualified name, a method with the first method of the paired type with the same signature.
Each difference goes into the ledger as it is met. What only the first input declares is not
looked at.

* `MemberMatch` and `TypeMatch` are what became of a method and a type of the second input.
* `matchMember`, `matchMembers` and `matchTypes` walk a method, a type's methods and all types,
  and hand the ledger on.
* `matchModules` matches two indexes, starting with an empty ledger.
-/

set_option autoImplicit false

namespace ModuleMerge

/-! ## Outcomes -/

/-- What became of a method of the second input. -/
inductive MemberMatch where
  /-- The first input has no method with the signature. -/
  | added (id : Nat) (second : Member)
  /-- The first input has the method with the same body. -/
  | duplicate (id : Nat) (first second : Member)
  /-- The first input has the method with another body. -/
  | conflict (id : Nat) (first second : Member)

/-- The id of a method's difference. -/
def MemberMatch.id : MemberMatch → Nat
  | added id _ => id
  | duplicate id _ _ => id
  | conflict id _ _ => id

/-- What became of a type of the second input. -/
inductive TypeMatch where
  /-- The first input has no type with the name. -/
  | added (id : Nat) (path : String) (entry : Entry)
  /-- The first input has the type; these are the methods of the second one. -/
  | shared (qualified : String) (members : List MemberMatch)

/-- What became of every type of the second input, in source order. Shared types without a method
in the second input are left out. -/
structure MatchPlan where
  types : List TypeMatch

namespace MatchPlan

/-- The number of types that only the second input has. -/
def addedCount (plan : MatchPlan) : Nat :=
  plan.types.countP fun | .added .. => true | .shared .. => false

/-- The number of types of the plan that both inputs have. -/
def sharedCount (plan : MatchPlan) : Nat :=
  plan.types.countP fun | .added .. => false | .shared .. => true

end MatchPlan

/-! ## The walk -/

/-- Matches one method of the second input's type at `location`. -/
def matchMember (ours : TypeDecl) (location : String) (second : Member) (ledger : Ledger) :
    MemberMatch × Ledger :=
  let id := ledger.nextId
  match ours.member? second.signature with
  | none =>
    (.added id second,
      ledger.record
        { kind := .methodAdded, name := second.method.name, location
          signature := some second.signature
          secondBody := some second.method.core })
  | some first =>
    let same := first.method.sameBody second.method
    (if same then .duplicate id first second else .conflict id first second,
      ledger.record
        { kind := if same then .methodDuplicate else .methodConflict
          name := second.method.name, location
          signature := some second.signature
          firstBody := some first.method.core
          secondBody := some second.method.core })

/-- Matches the methods of one type of the second input, in order. -/
def matchMembers (ours : TypeDecl) (location : String) :
    List Member → Ledger → List MemberMatch × Ledger
  | [], ledger => ([], ledger)
  | m :: ms, ledger =>
    let head := matchMember ours location m ledger
    let tail := matchMembers ours location ms head.2
    (head.1 :: tail.1, tail.2)

/-- Matches the types of the second input, in order. -/
def matchTypes (first : Index) : List IndexedType → Ledger → List TypeMatch × Ledger
  | [], ledger => ([], ledger)
  | theirs :: rest, ledger =>
    match first.get? theirs.qualified with
    | none =>
      let recorded :=
        ledger.record
          { kind := .typeAdded, name := theirs.type.name, location := theirs.qualified }
      let tail := matchTypes first rest recorded
      (.added ledger.nextId theirs.path theirs.entry :: tail.1, tail.2)
    | some ours =>
      let members := matchMembers ours.type theirs.qualified theirs.type.members ledger
      let tail := matchTypes first rest members.2
      if members.1.isEmpty then tail
      else (.shared ours.qualified members.1 :: tail.1, tail.2)

/-- Pairs the declarations of two modules. -/
def matchModules (first second : Index) : MatchPlan × Ledger :=
  let walk := matchTypes first second.types Ledger.empty
  (⟨walk.1⟩, walk.2)

end ModuleMerge
