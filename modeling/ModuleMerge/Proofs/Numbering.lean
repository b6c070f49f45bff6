import ModuleMerge.Proofs.Table

/-!
# What the ledger numbers

The ids of a merge come from a ledger that is handed through two nested walks. Seen from outside
they are a plain count: the second input's types are gone through in source order, a type that
the first input lacks is one item, and of every other type each method is one. The item that
comes `n`-th has the id `n`.

This is the description that everything else starts from. A match plan is nested, type by type and
method by method, and a type without methods is left out of it. What comes of the plan is a ledger
and a list of edits, which are built in different passes, and to relate an edit to its entry one
would have to follow both. Here they are two maps of one list.

That a plan may be resolved item by item is not immediate: the resolver takes the edit of a type out
of the plan once for all methods of the type, and puts it back once. To take it out anew for each
method comes to the same, which is the one thing to be shown (`Resolver.resolveType_cons`).

* `numberedItems` is that count.
* `entries_matchModules` says that the ledger holds the items' differences under these ids.
* `resolve_matchModules` says that resolving a match plan goes through the items one by one, so
  that no later proof has to speak of match plans.
-/

set_option autoImplicit false

namespace ModuleMerge

/-- What the ledger counts: a type that only the second input has, or a method of a type that both
have, with the method of the first input that it is paired with. -/
inductive Item where
  | type (theirs : IndexedType)
  | method (theirs : IndexedType) (partner : Option Member) (second : Member)

namespace Item

/-- What the ledger notes about an item. -/
def difference : Item → Difference
  | .type theirs => { kind := .typeAdded, name := theirs.type.name, location := theirs.qualified }
  | .method theirs none second =>
    { kind := .methodAdded, name := second.method.name, location := theirs.qualified
      signature := some second.signature
      secondBody := some second.method.core }
  | .method theirs (some first) second =>
    { kind := if first.method.sameBody second.method then .methodDuplicate else .methodConflict
      name := second.method.name, location := theirs.qualified
      signature := some second.signature
      firstBody := some first.method.core
      secondBody := some second.method.core }

@[simp] theorem location_difference_method (theirs : IndexedType) (partner : Option Member)
    (second : Member) :
    (Item.method theirs partner second).difference.location = theirs.qualified := by
  cases partner <;> rfl

@[simp] theorem signature_difference_method (theirs : IndexedType) (partner : Option Member)
    (second : Member) :
    (Item.method theirs partner second).difference.signature = some second.signature := by
  cases partner <;> rfl

theorem kind_difference_method_ne (theirs : IndexedType) (partner : Option Member)
    (second : Member) : (Item.method theirs partner second).difference.kind ≠ .typeAdded := by
  cases partner with
  | none => simp [difference]
  | some first =>
    simp only [difference]
    split <;> simp

/-- There is a choice on a method that has a partner. -/
theorem isChoosable_difference_method (theirs : IndexedType) (partner : Option Member)
    (second : Member) :
    (Item.method theirs partner second).difference.kind.isChoosable = partner.isSome := by
  cases partner with
  | none => rfl
  | some first =>
    simp only [difference]
    split <;> rfl

end Item

/-- The items that one type of the second input gives. -/
def IndexedType.items (first : Index) (theirs : IndexedType) : List Item :=
  match first.get? theirs.qualified with
  | none => [.type theirs]
  | some ours => theirs.type.members.map fun m => .method theirs (ours.type.member? m.signature) m

/-- All items of the second input with their ids. -/
def numberedItems (first second : Index) : List (Item × Nat) :=
  (second.types.flatMap (·.items first)).zipIdx 1

/-- Whatever is an item of some type has an id, which is one more than its place in the count. -/
theorem exists_id_of_item {first second : Index} {theirs : IndexedType} {item : Item}
    (hmem : theirs ∈ second.types) (hitem : item ∈ theirs.items first) :
    ∃ id, (item, id) ∈ numberedItems first second := by
  obtain ⟨place, hplace⟩ := List.getElem?_of_mem (List.mem_flatMap.2 ⟨theirs, hmem, hitem⟩)
  exact ⟨1 + place, List.mk_add_mem_zipIdx_iff_getElem?.2 hplace⟩

theorem exists_id_of_added {first second : Index} {theirs : IndexedType}
    (hmem : theirs ∈ second.types) (hnone : first.get? theirs.qualified = none) :
    ∃ id, (Item.type theirs, id) ∈ numberedItems first second :=
  exists_id_of_item hmem (by simp [IndexedType.items, hnone])

/-! ## The ledger

The two walks hand the ledger on, so the statements are about any ledger to begin with. Its next id
is where the numbering goes on. -/

/-- A ledger with more items, each under the next id. -/
def Ledger.recordItems (ledger : Ledger) (items : List Item) : Ledger :=
  items.foldl (fun l i => l.record i.difference) ledger

theorem Ledger.recordItems_append (ledger : Ledger) (xs ys : List Item) :
    ledger.recordItems (xs ++ ys) = (ledger.recordItems xs).recordItems ys :=
  List.foldl_append ..

@[simp] theorem Ledger.nextId_record (ledger : Ledger) (d : Difference) :
    (ledger.record d).nextId = ledger.nextId + 1 := by
  simp [nextId]

theorem Ledger.nextId_recordItems (ledger : Ledger) (items : List Item) :
    (ledger.recordItems items).nextId = ledger.nextId + items.length := by
  induction items generalizing ledger with
  | nil => rfl
  | cons i rest ih =>
    rw [recordItems, List.foldl_cons, ← recordItems, ih, nextId_record, List.length_cons]
    omega

theorem Ledger.entries_recordItems (ledger : Ledger) (items : List Item) :
    (ledger.recordItems items).entries
      = ledger.entries
        ++ (items.zipIdx ledger.nextId).map
          fun x => LedgerEntry.ofDifference x.2 x.1.difference := by
  induction items generalizing ledger with
  | nil => simp [recordItems]
  | cons i rest ih =>
    rw [recordItems, List.foldl_cons, ← recordItems, ih, nextId_record, List.zipIdx_cons]
    simp [record]

/-! ## Matching -/

/-- What becomes of a method of the second input, by the method it is paired with. -/
def pairing (id : Nat) (partner : Option Member) (second : Member) : MemberMatch :=
  match partner with
  | none => .added id second
  | some first =>
    if first.method.sameBody second.method then .duplicate id first second
    else .conflict id first second

theorem matchMember_eq (ours : TypeDecl) (theirs : IndexedType) (m : Member) (ledger : Ledger) :
    matchMember ours theirs.qualified m ledger
      = (pairing ledger.nextId (ours.member? m.signature) m,
        ledger.record (Item.method theirs (ours.member? m.signature) m).difference) := by
  rw [matchMember]
  cases ours.member? m.signature <;> rfl

/-- The walk through the methods of a type: one method after another, under consecutive ids. -/
theorem matchMembers_eq (ours : TypeDecl) (theirs : IndexedType) (ms : List Member)
    (ledger : Ledger) :
    matchMembers ours theirs.qualified ms ledger
      = ((ms.zipIdx ledger.nextId).map fun x => pairing x.2 (ours.member? x.1.signature) x.1,
        ledger.recordItems (ms.map fun m => .method theirs (ours.member? m.signature) m)) := by
  induction ms generalizing ledger with
  | nil => rfl
  | cons m rest ih =>
    rw [matchMembers, matchMember_eq, ih, Ledger.nextId_record, List.zipIdx_cons]
    rfl

/-- The walk through the types leaves a ledger that has the items of all of them in it. -/
theorem matchTypes_ledger (first : Index) (types : List IndexedType) (ledger : Ledger) :
    (matchTypes first types ledger).2 = ledger.recordItems (types.flatMap (·.items first)) := by
  induction types generalizing ledger with
  | nil => rfl
  | cons theirs rest ih =>
    rw [matchTypes, List.flatMap_cons, Ledger.recordItems_append, IndexedType.items]
    cases first.get? theirs.qualified with
    | none => exact ih _
    | some ours =>
      simp only [matchMembers_eq]
      split <;> exact ih _

/-- **The ledger is the count of the items.** -/
theorem entries_matchModules (first second : Index) :
    (matchModules first second).2.entries
      = (numberedItems first second).map
          fun x => LedgerEntry.ofDifference x.2 x.1.difference := by
  rw [matchModules, matchTypes_ledger, Ledger.entries_recordItems]
  rfl

/-- Every item has an entry in the ledger. -/
theorem mem_ledger_of_mem_numberedItems {first second : Index} {item : Item} {id : Nat}
    (h : (item, id) ∈ numberedItems first second) :
    LedgerEntry.ofDifference id item.difference ∈ (matchModules first second).2.entries := by
  rw [entries_matchModules]
  exact List.mem_map_of_mem (f := fun x => LedgerEntry.ofDifference x.2 x.1.difference) h

/-- Every entry of the ledger is about an item. -/
theorem exists_item_of_mem_ledger {first second : Index} {e : LedgerEntry}
    (h : e ∈ (matchModules first second).2.entries) :
    ∃ item, (item, e.id) ∈ numberedItems first second
      ∧ e = LedgerEntry.ofDifference e.id item.difference := by
  rw [entries_matchModules] at h
  obtain ⟨⟨item, id⟩, hmem, rfl⟩ := List.mem_map.1 h
  exact ⟨item, hmem, rfl⟩

/-! ## Resolving

A step of the resolver is defined for a match, and an item is taken as a match of its own. -/

/-- The plan after one item. -/
def Resolver.resolveItem (r : Resolver) (plan : EditPlan) : Item × Nat → EditPlan
  | (.type theirs, id) => r.resolveType plan (.added id theirs.path theirs.entry)
  | (.method theirs partner second, id) =>
    r.resolveType plan (.shared theirs.qualified [pairing id partner second])

/-- The methods of a matched type may be resolved one after another. -/
theorem Resolver.resolveType_cons (r : Resolver) (plan : EditPlan) (name : String)
    (m : MemberMatch) (ms : List MemberMatch) :
    r.resolveType plan (.shared name (m :: ms))
      = r.resolveType (r.resolveType plan (.shared name [m])) (.shared name ms) := by
  simp [resolveType, resolveMembers, EditPlan.edit_eq, EditPlan.setPair_eq, valueOf?_setValue,
    setValue_setValue]

/-- A matched type is resolved as its methods are, one by one. It has to have some: with none, the
resolver would still make an edit for it. -/
theorem Resolver.resolveType_shared (r : Resolver) (theirs : IndexedType) (plan : EditPlan)
    (ours : TypeDecl) (ms : List Member) (id : Nat) (hms : ms ≠ []) :
    r.resolveType plan
        (.shared theirs.qualified
          ((ms.zipIdx id).map fun x => pairing x.2 (ours.member? x.1.signature) x.1))
      = ((ms.map fun m => Item.method theirs (ours.member? m.signature) m).zipIdx id).foldl
          r.resolveItem plan := by
  induction ms generalizing id plan with
  | nil => exact absurd rfl hms
  | cons m rest ih =>
    cases rest with
    | nil => rfl
    | cons m' rest =>
      rw [List.zipIdx_cons, List.map_cons, resolveType_cons, ih _ _ (List.cons_ne_nil _ _)]
      rfl

/-- The matches of a list of types, resolved in order, from any plan and any ledger. -/
theorem Resolver.foldl_resolveType_matchTypes (r : Resolver) (first : Index)
    (types : List IndexedType) (ledger : Ledger) (plan : EditPlan) :
    (matchTypes first types ledger).1.foldl r.resolveType plan
      = ((types.flatMap (·.items first)).zipIdx ledger.nextId).foldl r.resolveItem plan := by
  induction types generalizing ledger plan with
  | nil => rfl
  | cons theirs rest ih =>
    rw [matchTypes, List.flatMap_cons, List.zipIdx_append, List.foldl_append, IndexedType.items]
    cases hours : first.get? theirs.qualified with
    | none =>
      have hrest := ih
        (ledger.record
          { kind := .typeAdded, name := theirs.type.name, location := theirs.qualified })
        (r.resolveItem plan (.type theirs, ledger.nextId))
      rw [Ledger.nextId_record] at hrest
      exact hrest
    | some ours =>
      have hname : ours.qualified = theirs.qualified := by simpa using List.find?_some hours
      simp only [matchMembers_eq, hname]
      by_cases hms : theirs.type.members = []
      · simpa [hms, Ledger.nextId_recordItems] using ih (ledger.recordItems []) plan
      · rw [if_neg (by simpa using hms), List.foldl_cons, r.resolveType_shared _ _ _ _ _ hms, ih,
          Ledger.nextId_recordItems]

/-- **Resolving goes through the items one by one.** -/
theorem Resolver.resolve_matchModules (r : Resolver) (first second : Index) :
    r.resolve (matchModules first second).1
      = (numberedItems first second).foldl r.resolveItem .empty :=
  r.foldl_resolveType_matchTypes first second.types .empty .empty

end ModuleMerge
