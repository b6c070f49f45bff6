import ModuleMerge.Proofs.Contributions

/-!
# The ledger, the plan and the two modules

A match is told twice, in the ledger and in the plan, and both are read long after the two inputs
were: a user's choices of an earlier pass are looked up by id. So the three have to fit together.
Here it is said what an id means in the two inputs themselves, without a walk or a counter.

The count of items (`numberedItems`) already has one row for each difference, so that plan and
ledger agree is quickly seen. But an item is itself found by look-ups in two indexes, and what a
look-up means has to be said in terms of the two trees: that a type is the first of its name, that
no method with a signature stands before another, or that there is none. All of this is put into the
cases of `Told`, where neither an index nor an item is mentioned.

That no declaration is missed and none told twice is a statement about the list of origins. It is
strictly in the order of the source text, so nothing comes twice, and its members are exactly the
declarations that count.

* `MatchPlan.planned` is a plan as a plain list, one item after another.
* `Origin` is a declaration of the second input that is told about, and `Origin.Before` the order
  of the source text.
* `Told` says what is told about an origin.
* `corresponds_matchModules` is the main result: ledger and plan tell about every origin once, in
  the order of the source text, under the ids 1, 2, 3 and so on.
-/

set_option autoImplicit false

namespace ModuleMerge

/-! ## Plans as lists -/

/-- What a match plan says about one difference: a type that is added, or what became of a method
of the type with a name. -/
inductive PlannedItem where
  | type (id : Nat) (path : String) (entry : Entry)
  | method (location : String) (matched : MemberMatch)

/-- The items of one type of a plan. -/
def TypeMatch.planned : TypeMatch → List PlannedItem
  | .added id path entry => [.type id path entry]
  | .shared qualified members => members.map (.method qualified)

/-- The items of a plan in order. -/
def MatchPlan.planned (plan : MatchPlan) : List PlannedItem :=
  plan.types.flatMap TypeMatch.planned

namespace PlannedItem

def id : PlannedItem → Nat
  | .type id _ _ => id
  | .method _ matched => matched.id

def kind : PlannedItem → DifferenceKind
  | .type .. => .typeAdded
  | .method _ (.added ..) => .methodAdded
  | .method _ (.duplicate ..) => .methodDuplicate
  | .method _ (.conflict ..) => .methodConflict

/-- The qualified name of the type that the item is about, or whose method it is about. -/
def location : PlannedItem → String
  | .type _ path ⟨_, _, .type t⟩ => qualify path t.name
  | .type _ path _ => path
  | .method location _ => location

/-- The item that a match plan has for an item of the count. -/
def ofItem : Item × Nat → PlannedItem
  | (.type theirs, id) => .type id theirs.path theirs.entry
  | (.method theirs partner second, id) => .method theirs.qualified (pairing id partner second)

theorem agrees_ofItem (item : Item) (id : Nat) :
    (ofItem (item, id)).id = id ∧ (ofItem (item, id)).kind = item.difference.kind
      ∧ (ofItem (item, id)).location = item.difference.location := by
  match item with
  | .type theirs => exact ⟨rfl, rfl, rfl⟩
  | .method theirs none second => exact ⟨rfl, rfl, rfl⟩
  | .method theirs (some first) second =>
    simp only [ofItem, pairing, Item.difference]
    cases first.method.sameBody second.method <;> exact ⟨rfl, rfl, rfl⟩

end PlannedItem

theorem planned_matchTypes (first : Index) (types : List IndexedType) (ledger : Ledger) :
    (matchTypes first types ledger).1.flatMap TypeMatch.planned
      = ((types.flatMap (·.items first)).zipIdx ledger.nextId).map PlannedItem.ofItem := by
  induction types generalizing ledger with
  | nil => rfl
  | cons theirs rest ih =>
    rw [matchTypes, List.flatMap_cons, List.zipIdx_append, List.map_append, IndexedType.items]
    cases hours : first.get? theirs.qualified with
    | none =>
      have hrest := ih
        (ledger.record
          { kind := .typeAdded, name := theirs.type.name, location := theirs.qualified })
      rw [Ledger.nextId_record] at hrest
      exact congrArg (_ :: ·) hrest
    | some ours =>
      have hname : ours.qualified = theirs.qualified := by simpa using List.find?_some hours
      have hrest := ih (ledger.recordItems
        (theirs.type.members.map fun m => .method theirs (ours.type.member? m.signature) m))
      rw [Ledger.nextId_recordItems] at hrest
      simp only [matchMembers_eq, hname]
      split
      · -- A type without methods is left out of the plan, and has no items.
        rename_i hempty
        have hmembers : theirs.type.members = [] := by simpa using hempty
        simpa [hmembers, Ledger.recordItems] using hrest
      · rw [List.flatMap_cons, hrest, TypeMatch.planned, List.map_map]
        refine congrArg (· ++ _) ?_
        generalize theirs.type.members = ms
        generalize ledger.nextId = id
        induction ms generalizing id with
        | nil => rfl
        | cons m ms ihMembers =>
          rw [List.zipIdx_cons, List.map_cons, List.map_cons, List.zipIdx_cons, List.map_cons,
            ihMembers]
          rfl

/-- **A plan is the count of the items**, as the ledger is. -/
theorem planned_matchModules (first second : Index) :
    (matchModules first second).1.planned = (numberedItems first second).map PlannedItem.ofItem :=
  planned_matchTypes first second.types .empty

/-! ## Look-ups

Look-ups stop at the first hit, and lists are in the order of the source text. -/

/-- The type stands in a module under the name, and no other of the name stands before it. -/
def SourceModule.FirstDeclared (m : SourceModule) (name : String) (t : TypeDecl) : Prop :=
  ∃ place x, m.Has place x ∧ x.qualified = name ∧ x.type = t
    ∧ ∀ place' y, m.Has place' y → y.qualified = name → ¬ place' < place

/-- No type of a module has the name. -/
def SourceModule.NotDeclared (m : SourceModule) (name : String) : Prop :=
  ∀ place t, m.Has place t → t.qualified ≠ name

theorem firstDeclared_of_get? {m : SourceModule} {name : String} {ours : IndexedType}
    (h : (Index.ofModule m).get? name = some ours) : m.FirstDeclared name ours.type := by
  rw [get?_ofModule] at h
  obtain ⟨⟨place, ours⟩, hfirst, rfl⟩ := Option.map_eq_some_iff.1 h
  obtain ⟨hhas, hname, hbefore⟩ := firstOf?_eq_some_iff.1 hfirst
  exact ⟨place, ours, hhas, hname, rfl, hbefore⟩

theorem get?_eq_none_iff {m : SourceModule} {name : String} :
    (Index.ofModule m).get? name = none ↔ m.NotDeclared name := by
  simp [get?_ofModule, SourceModule.firstOf?, SourceModule.NotDeclared, ← mem_placedTypes_iff]

namespace TypeDecl

/-- The method is the earliest in the body with its signature, and its position is how many entries
come before it. -/
def Earliest (t : TypeDecl) (m : Member) : Prop :=
  ∃ before after, t.body.entries = before ++ m.entry :: after ∧ m.position = before.length
    ∧ ∀ e ∈ before, ∀ n, e.decl = .method n → n.signature ≠ m.signature

/-- No method in the body has the signature. -/
def Lacks (t : TypeDecl) (signature : String) : Prop :=
  ∀ e ∈ t.body.entries, ∀ n, e.decl = .method n → n.signature ≠ signature

theorem lacks_of_member? {t : TypeDecl} {signature : String} (h : t.member? signature = none) :
    t.Lacks signature :=
  member?_eq_none_iff.1 h

theorem earliest_of_member? {t : TypeDecl} {signature : String} {m : Member}
    (h : t.member? signature = some m) : t.Earliest m ∧ m.signature = signature := by
  obtain ⟨hentry, rfl, hbefore⟩ := member?_eq_some_iff.1 h
  obtain ⟨hlt, hget⟩ := List.getElem?_eq_some_iff.1 hentry
  refine ⟨⟨t.body.entries.take m.position, t.body.entries.drop (m.position + 1), ?_, ?_, ?_⟩, rfl⟩
  · rw [← hget, List.getElem_cons_drop, List.take_append_drop]
  · exact (List.length_take_of_le (Nat.le_of_lt hlt)).symm
  · intro e he n hn
    obtain ⟨leading, notes, decl⟩ := e
    obtain rfl : decl = .method n := hn
    obtain ⟨position, hposition, hget⟩ := List.mem_take_iff_getElem.1 he
    obtain ⟨hposition, hlength⟩ := Nat.lt_min.1 hposition
    exact hbefore position hposition leading notes n (List.getElem?_eq_some_iff.2 ⟨hlength, hget⟩)

end TypeDecl

/-! ## Origins -/

/-- A declaration of the second input that gives an item: a type, or a method of a type. -/
structure Origin where
  /-- Where the type stands. -/
  place : Place
  type : IndexedType
  /-- The method, if the item is about one. -/
  method? : Option Member

namespace Origin

/-- The order of the source text: types by their places, outer and earlier positions first, and
the methods of one type by their positions in its body. -/
def Before (x y : Origin) : Prop :=
  x.place < y.place ∨ x.place = y.place
    ∧ ∃ m n, x.method? = some m ∧ y.method? = some n ∧ m.position < n.position

/-- The declarations that give items: types that the first input does not have, and the methods in
the bodies of all other types. -/
def Counts (first second : SourceModule) (o : Origin) : Prop :=
  second.Has o.place o.type
    ∧ match o.method? with
      | none => first.NotDeclared o.type.qualified
      | some m => ¬ first.NotDeclared o.type.qualified
          ∧ o.type.type.body.entries[m.position]? = some m.entry

/-- The origins that one type of the second input gives. -/
def ofPlaced (first : Index) (x : Place × IndexedType) : List Origin :=
  match first.get? x.2.qualified with
  | none => [⟨x.1, x.2, none⟩]
  | some _ => x.2.type.members.map fun m => ⟨x.1, x.2, some m⟩

/-- The item that an origin gives. -/
def item (first : Index) (o : Origin) : Item :=
  match o.method? with
  | none => .type o.type
  | some m =>
    .method o.type ((first.get? o.type.qualified).bind (·.type.member? m.signature)) m

theorem map_item_ofPlaced (first : Index) (x : Place × IndexedType) :
    (ofPlaced first x).map (item first) = x.2.items first := by
  rw [ofPlaced, IndexedType.items]
  cases hours : first.get? x.2.qualified with
  | none => rfl
  | some ours => simp [item, hours]

end Origin

/-- The origins of all items, in the order of the source text. -/
def SourceModule.origins (first : Index) (second : SourceModule) : List Origin :=
  second.placedTypes.flatMap (Origin.ofPlaced first)

theorem numberedItems_eq_origins (first : Index) (second : SourceModule) :
    numberedItems first (Index.ofModule second)
      = ((second.origins first).zipIdx 1).map fun x => (x.1.item first, x.2) := by
  have hitems : (Index.ofModule second).types.flatMap (·.items first)
      = (second.origins first).map (Origin.item first) := by
    rw [SourceModule.origins, List.map_flatMap, types_ofModule, List.flatMap_map]
    simp only [Origin.map_item_ofPlaced]
  rw [numberedItems, hitems, List.zipIdx_map]
  rfl

theorem mem_origins_iff {first second : SourceModule} {o : Origin} :
    o ∈ second.origins (Index.ofModule first) ↔ o.Counts first second := by
  have hplaced : ∀ x : Place × IndexedType,
      o ∈ Origin.ofPlaced (Index.ofModule first) x
        ↔ x = (o.place, o.type) ∧ match o.method? with
          | none => first.NotDeclared o.type.qualified
          | some m => ¬ first.NotDeclared o.type.qualified
              ∧ o.type.type.body.entries[m.position]? = some m.entry := by
    rintro ⟨place, t⟩
    obtain ⟨place', t', method?⟩ := o
    rw [Origin.ofPlaced]
    cases hours : (Index.ofModule first).get? t.qualified with
    | none =>
      have hnot := get?_eq_none_iff.1 hours
      cases method? <;> grind
    | some ours =>
      have hdeclared : ¬ first.NotDeclared t.qualified := by
        simp [← get?_eq_none_iff, hours]
      cases method? <;> grind [TypeDecl.mem_members_iff]
  simp only [SourceModule.origins, List.mem_flatMap, hplaced, Origin.Counts, ← mem_placedTypes_iff]
  constructor
  · rintro ⟨x, hx, rfl, hmethod⟩
    exact ⟨hx, hmethod⟩
  · rintro ⟨hplace, hmethod⟩
    exact ⟨_, hplace, rfl, hmethod⟩

/-- The origins come in the order of the source text. -/
theorem pairwise_origins (first : Index) (second : SourceModule) :
    (second.origins first).Pairwise Origin.Before := by
  refine List.pairwise_flatMap.2 ⟨fun x _ => ?_, ?_⟩
  · rw [Origin.ofPlaced]
    split
    · exact List.pairwise_singleton _ _
    · refine List.pairwise_map.2 ((pairwise_membersFrom 0 _).imp fun hlt => ?_)
      exact .inr ⟨rfl, _, _, rfl, rfl, hlt⟩
  · have hplace : ∀ x, ∀ o ∈ Origin.ofPlaced first x, o.place = x.1 := by
      intro x o ho
      rw [Origin.ofPlaced] at ho
      split at ho
      · rw [List.mem_singleton.1 ho]
      · obtain ⟨m, -, rfl⟩ := List.mem_map.1 ho
        rfl
    refine (inOrder_placedUnder "" 0 second.body.entries).imp fun hlt o ho o' ho' => .inl ?_
    rw [hplace _ o ho, hplace _ o' ho']
    exact hlt

/-! ## What is told -/

/-- What the plan and the ledger tell about an origin. -/
inductive Told (first : SourceModule) : Origin → PlannedItem → LedgerEntry → Prop
  /-- The first input does not have the type. -/
  | typeAdded {place : Place} {t : IndexedType} {id : Nat} :
      first.NotDeclared t.qualified →
      Told first ⟨place, t, none⟩ (.type id t.path t.entry)
        ⟨id, .typeAdded, t.type.name, t.qualified, .append, none, none, none⟩
  /-- The first declaration of the type in the first input has no method with the signature. -/
  | methodAdded {place : Place} {t : IndexedType} {m : Member} {id : Nat} {ours : TypeDecl} :
      first.FirstDeclared t.qualified ours → ours.Lacks m.signature →
      Told first ⟨place, t, some m⟩ (.method t.qualified (.added id m))
        ⟨id, .methodAdded, m.method.name, t.qualified, .append, some m.signature, none,
          some m.method.core⟩
  /-- The earliest method with the signature has the same body. -/
  | methodDuplicate {place : Place} {t : IndexedType} {m n : Member} {id : Nat} {ours : TypeDecl} :
      first.FirstDeclared t.qualified ours → ours.Earliest n → n.signature = m.signature →
      n.method.core = m.method.core →
      Told first ⟨place, t, some m⟩ (.method t.qualified (.duplicate id n m))
        ⟨id, .methodDuplicate, m.method.name, t.qualified, .deduplicate, some m.signature,
          some n.method.core, some m.method.core⟩
  /-- The earliest method with the signature has another body. -/
  | methodConflict {place : Place} {t : IndexedType} {m n : Member} {id : Nat} {ours : TypeDecl} :
      first.FirstDeclared t.qualified ours → ours.Earliest n → n.signature = m.signature →
      n.method.core ≠ m.method.core →
      Told first ⟨place, t, some m⟩ (.method t.qualified (.conflict id n m))
        ⟨id, .methodConflict, m.method.name, t.qualified, .keepBoth, some m.signature,
          some n.method.core, some m.method.core⟩

/-- Of the item that an origin gives, the plan and the ledger tell what they should. -/
theorem told_of_counts {first second : SourceModule} {o : Origin} (h : o.Counts first second)
    (id : Nat) :
    Told first o (.ofItem (o.item (Index.ofModule first), id))
      (.ofDifference id (o.item (Index.ofModule first)).difference) := by
  obtain ⟨place, t, method?⟩ := o
  cases method? with
  | none => exact .typeAdded h.2
  | some m =>
    obtain ⟨ours, hours⟩ : ∃ ours, (Index.ofModule first).get? t.qualified = some ours :=
      Option.ne_none_iff_exists'.1 fun hnone => h.2.1 (get?_eq_none_iff.1 hnone)
    have hfirst := firstDeclared_of_get? hours
    simp only [Origin.item, hours, Option.bind_some]
    cases hmember : ours.type.member? m.signature with
    | none => exact .methodAdded hfirst (TypeDecl.lacks_of_member? hmember)
    | some n =>
      obtain ⟨hearliest, hsignature⟩ := TypeDecl.earliest_of_member? hmember
      by_cases hsame : n.method.core = m.method.core
      · have hbody : n.method.sameBody m.method = true := by simpa [Method.sameBody] using hsame
        simp only [PlannedItem.ofItem, pairing, Item.difference, hbody, if_true]
        exact .methodDuplicate hfirst hearliest hsignature hsame
      · have hbody : n.method.sameBody m.method = false := by simpa [Method.sameBody] using hsame
        simp only [PlannedItem.ofItem, pairing, Item.difference, hbody, Bool.false_eq_true,
          if_false]
        exact .methodConflict hfirst hearliest hsignature hsame

/-! ## The match -/

/-- A plan and a ledger tell about two modules, and tell the same. -/
structure Corresponds (first second : SourceModule) (plan : MatchPlan) (ledger : Ledger) :
    Prop where
  /-- The ids of the ledger count its entries from 1 on. -/
  ids : ledger.entries.map LedgerEntry.id = List.range' 1 ledger.size
  /-- An id finds the entry that it counts. -/
  get? : ∀ place (h : place < ledger.size),
    ledger.get? (place + 1) = some (ledger.entries.get ⟨place, h⟩)
  /-- Other ids find nothing. -/
  get?_none : ∀ id, id = 0 ∨ ledger.size < id → ledger.get? id = none
  /-- The ids of the plan are the same ones. -/
  planned_ids : plan.planned.map PlannedItem.id = List.range' 1 ledger.size
  /-- Item by item the plan agrees with the ledger. -/
  agrees : plan.planned.map (fun i => (i.kind, i.location))
    = ledger.entries.map fun e => (e.kind, e.location)
  /-- The items are about the origins of the two modules, each once and in the order of the source
  text. -/
  told : ∃ rows : List (Origin × PlannedItem × LedgerEntry),
    rows.map (·.2.1) = plan.planned ∧ rows.map (·.2.2) = ledger.entries
      ∧ (rows.map (·.1)).Pairwise Origin.Before
      ∧ (∀ o, o ∈ rows.map (·.1) ↔ o.Counts first second)
      ∧ ∀ row ∈ rows, Told first row.1 row.2.1 row.2.2

/-- **The ledger, the plan and the two modules correspond.** -/
theorem corresponds_matchModules (first second : SourceModule) :
    Corresponds first second (matchModules (.ofModule first) (.ofModule second)).1
      (matchModules (.ofModule first) (.ofModule second)).2 := by
  have hledger := entries_matchModules (Index.ofModule first) (Index.ofModule second)
  have hplan := planned_matchModules (Index.ofModule first) (Index.ofModule second)
  have hsize : (matchModules (.ofModule first) (.ofModule second)).2.size
      = (numberedItems (Index.ofModule first) (Index.ofModule second)).length := by
    rw [Ledger.size, hledger, List.length_map]
  have hids : (numberedItems (Index.ofModule first) (Index.ofModule second)).map Prod.snd
      = List.range' 1 (matchModules (.ofModule first) (.ofModule second)).2.size := by
    rw [hsize, numberedItems, List.zipIdx_map_snd, List.length_zipIdx]
  constructor
  case ids => rw [← hids, hledger, List.map_map]; rfl
  case get? => exact fun place h => List.getElem?_eq_getElem h
  case get?_none =>
    rintro id (rfl | hlt)
    · rfl
    · obtain ⟨place, rfl⟩ : ∃ place, id = place + 1 := ⟨id - 1, by omega⟩
      exact List.getElem?_eq_none (Nat.lt_succ_iff.1 hlt)
  case planned_ids =>
    rw [← hids, hplan, List.map_map]
    exact List.map_congr_left fun x _ => (PlannedItem.agrees_ofItem x.1 x.2).1
  case agrees =>
    rw [hplan, hledger, List.map_map, List.map_map]
    refine List.map_congr_left fun x _ => ?_
    obtain ⟨-, hkind, hlocation⟩ := PlannedItem.agrees_ofItem x.1 x.2
    exact Prod.ext hkind hlocation
  case told =>
    rw [hplan, hledger, numberedItems_eq_origins, List.map_map, List.map_map]
    refine ⟨((second.origins (.ofModule first)).zipIdx 1).map fun x =>
      (x.1, .ofItem (x.1.item (.ofModule first), x.2),
        .ofDifference x.2 (x.1.item (.ofModule first)).difference), ?_⟩
    have horigins : ((second.origins (.ofModule first)).zipIdx 1).map (fun x => x.1)
        = second.origins (.ofModule first) := List.zipIdx_map_fst 1 _
    simp only [List.map_map, Function.comp_def, horigins, true_and]
    refine ⟨pairwise_origins _ _, fun o => mem_origins_iff, ?_⟩
    rintro row hrow
    obtain ⟨⟨o, id⟩, ho, rfl⟩ := List.mem_map.1 hrow
    exact told_of_counts (mem_origins_iff.1 (List.fst_mem_of_mem_zipIdx ho)) id

end ModuleMerge
