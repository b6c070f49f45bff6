import ModuleMerge.Merge
import ModuleMerge.Proofs.AddedNames
import ModuleMerge.Proofs.Convergence
import ModuleMerge.Proofs.Correspondence

/-!
# A second input that gets longer

A user who has looked at the ledger of a merge may go on writing at the end of the second input. The
next merge then finds every difference of before under its id, so choices that were recorded go on
to mean the methods that they meant. What is new comes behind, as if it were matched alone, with ids
that go on from there.

Alone is not quite the word: a namespace in file form reaches over what is written behind it, and so
the new declarations are to be read behind the namespaces in file form that were there before.

Matching is a walk with a ledger in hand, so to go on is to walk on with a longer ledger. All that
the walk takes from its ledger is the next id. Hence what it makes of the new types behind the old
ones is what it makes of them alone, with all ids raised by the size of the old ledger. The one
thing that the old part of the second input has to do with the new one is the path.

* `fileScopes` are these namespaces, with nothing in them, and `types_holding_append` says that they
  are all that matters of what came before.
* `Ledger.followedBy` and `TypeMatch.raised` let ids go on, and `matchModules_append` does it for
  what two lists of types give.
* `merge_holding_append` is the main result.
-/

set_option autoImplicit false

namespace ModuleMerge

/-! ## What was written before -/

/-- The module with other entries. -/
def SourceModule.holding (m : SourceModule) (es : List Entry) : SourceModule :=
  { m with body := ⟨es, m.body.trailing⟩ }

/-- A namespace in file form, with nothing in it. -/
def Entry.fileScope? : Entry → Option Entry
  | ⟨leading, notes, .scope ⟨name, .file, header, _, footer⟩⟩ =>
    some ⟨leading, notes, .scope ⟨name, .file, header, ⟨[], ""⟩, footer⟩⟩
  | _ => none

/-- The namespaces in file form of a row, with nothing in them. -/
def fileScopes (es : List Entry) : List Entry :=
  es.filterMap Entry.fileScope?

/-- An entry that is no namespace in file form has no part in the path after it. -/
theorem pathAfter_of_fileScope? {path : String} {e : Entry} (h : e.fileScope? = none) :
    e.pathAfter path = path := by
  match e with
  | ⟨_, _, .scope ⟨_, .block, _, _, _⟩⟩ => rfl
  | ⟨_, _, .scope ⟨_, .file, _, _, _⟩⟩ => contradiction
  | ⟨_, _, .type _⟩ => rfl
  | ⟨_, _, .method _⟩ => rfl
  | ⟨_, _, .verbatim _⟩ => rfl

/-- An emptied namespace in file form reaches as far as the full one, and declares nothing. -/
theorem of_fileScope? (path : String) {e scope : Entry} (h : e.fileScope? = some scope) :
    scope.pathAfter path = e.pathAfter path ∧ scope.types path = [] := by
  match e with
  | ⟨_, _, .scope ⟨_, .file, _, _, _⟩⟩ =>
    obtain rfl := Option.some.inj h
    exact ⟨rfl, rfl⟩
  | ⟨_, _, .scope ⟨_, .block, _, _, _⟩⟩ => contradiction
  | ⟨_, _, .type _⟩ => contradiction
  | ⟨_, _, .method _⟩ => contradiction
  | ⟨_, _, .verbatim _⟩ => contradiction

/-- The namespaces in file form of a row leave the path that the row leaves, and declare nothing. -/
theorem typesUnder_fileScopes (path : String) (es rest : List Entry) :
    typesUnder path (fileScopes es ++ rest) = typesUnder (pathAfterRow path es) rest := by
  induction es generalizing path with
  | nil => rfl
  | cons e es ih =>
    rw [fileScopes, List.filterMap_cons, pathAfterRow]
    cases hscope : e.fileScope? with
    | none =>
      rw [pathAfter_of_fileScope? hscope]
      exact ih path
    | some scope =>
      obtain ⟨hpath, htypes⟩ := of_fileScope? path hscope
      rw [List.cons_append, typesUnder, htypes, hpath, List.nil_append]
      exact ih (e.pathAfter path)

/-- **More entries give more types**, which are those of the new entries behind the namespaces in
file form of the old ones. -/
theorem types_holding_append (m : SourceModule) (old new : List Entry) :
    (Index.ofModule (m.holding (old ++ new))).types
      = (Index.ofModule (m.holding old)).types
        ++ (Index.ofModule (m.holding (fileScopes old ++ new))).types := by
  simp only [Index.ofModule, SourceModule.holding, typesUnder_fileScopes]
  exact typesUnder_append "" old new

/-! ## Ids that go on -/

/-- The entry under an id that is greater by `n`. -/
def LedgerEntry.raised (n : Nat) (e : LedgerEntry) : LedgerEntry :=
  { e with id := e.id + n }

/-- A ledger with the entries of another one behind its own, under the ids that follow. -/
def Ledger.followedBy (l more : Ledger) : Ledger :=
  ⟨l.entries ++ more.entries.map (.raised l.size)⟩

/-- What a ledger finds, it finds when others follow. -/
theorem get?_followedBy {l : Ledger} (more : Ledger) {id : Nat} {e : LedgerEntry}
    (h : l.get? id = some e) : (l.followedBy more).get? id = some e := by
  match id with
  | place + 1 =>
    have hplace : place < l.entries.length := (List.getElem?_eq_some_iff.1 h).1
    exact (List.getElem?_append_left hplace).trans h

/-- What became of a method, under an id that is greater by `n`. -/
def MemberMatch.raised (n : Nat) : MemberMatch → MemberMatch
  | .added id second => .added (id + n) second
  | .duplicate id first second => .duplicate (id + n) first second
  | .conflict id first second => .conflict (id + n) first second

/-- What became of a type, under ids that are greater by `n`. -/
def TypeMatch.raised (n : Nat) : TypeMatch → TypeMatch
  | .added id path entry => .added (id + n) path entry
  | .shared qualified members => .shared qualified (members.map (.raised n))

theorem pairing_add (id n : Nat) (partner : Option Member) (second : Member) :
    pairing (id + n) partner second = (pairing id partner second).raised n := by
  cases partner with
  | none => rfl
  | some first =>
    rw [pairing, pairing]
    split <;> rfl

theorem map_zipIdx_add {α β : Type} (f : α × Nat → β) (xs : List α) (id n : Nat) :
    (xs.zipIdx (id + n)).map f = (xs.zipIdx id).map fun x => f (x.1, x.2 + n) := by
  induction xs generalizing id with
  | nil => rfl
  | cons x xs ih =>
    rw [List.zipIdx_cons, List.zipIdx_cons, List.map_cons, List.map_cons,
      show id + n + 1 = id + 1 + n by omega, ih]

/-- The numbers of items go on behind those of other items. -/
theorem numberedItems_append (first : Index) (xs ys : List IndexedType) :
    numberedItems first ⟨xs ++ ys⟩
      = numberedItems first ⟨xs⟩
        ++ (numberedItems first ⟨ys⟩).map
          fun x => (x.1, x.2 + (numberedItems first ⟨xs⟩).length) := by
  rw [numberedItems, List.flatMap_append, List.zipIdx_append, ← numberedItems]
  refine congrArg (_ ++ ·) ?_
  rw [numberedItems, numberedItems, List.length_zipIdx]
  exact (List.map_id _).symm.trans (map_zipIdx_add id _ 1 _)

theorem size_matchModules (first second : Index) :
    (matchModules first second).2.size = (numberedItems first second).length := by
  rw [Ledger.size, entries_matchModules, List.length_map]

/-- Ids of a merge start at 1 and end at the number of its differences. -/
theorem bounds_of_mem_numberedItems {first second : Index} {x : Item × Nat}
    (h : x ∈ numberedItems first second) :
    1 ≤ x.2 ∧ x.2 ≤ (matchModules first second).2.size := by
  obtain ⟨hfrom, hto, -⟩ := List.mem_zipIdx h
  rw [size_matchModules, numberedItems, List.length_zipIdx]
  omega

/-! ## Walks that go on -/

/-- What a plan has for one type of the second input, under ids from `id` on. -/
def IndexedType.matches (first : Index) (id : Nat) (theirs : IndexedType) : List TypeMatch :=
  match first.get? theirs.qualified with
  | none => [.added id theirs.path theirs.entry]
  | some ours =>
    let members := (theirs.type.members.zipIdx id).map fun x =>
      pairing x.2 (ours.type.member? x.1.signature) x.1
    if members.isEmpty then [] else [.shared ours.qualified members]

/-- Of the ledger that it is handed, a walk uses the next id only. -/
theorem matchTypes_cons (first : Index) (theirs : IndexedType) (rest : List IndexedType)
    (l : Ledger) :
    (matchTypes first (theirs :: rest) l).1
        = theirs.matches first l.nextId
          ++ (matchTypes first rest (l.recordItems (theirs.items first))).1
      ∧ (matchTypes first (theirs :: rest) l).2
        = (matchTypes first rest (l.recordItems (theirs.items first))).2 := by
  rw [matchTypes, IndexedType.matches, IndexedType.items]
  cases first.get? theirs.qualified with
  | none => exact ⟨rfl, rfl⟩
  | some ours =>
    simp only [matchMembers_eq]
    split
    · exact ⟨rfl, rfl⟩
    · exact ⟨rfl, rfl⟩

theorem matches_add (first : Index) (id n : Nat) (theirs : IndexedType) :
    theirs.matches first (id + n) = (theirs.matches first id).map (.raised n) := by
  rw [IndexedType.matches, IndexedType.matches]
  cases first.get? theirs.qualified with
  | none => rfl
  | some ours =>
    have hmembers : ((theirs.type.members.zipIdx (id + n)).map fun x =>
          pairing x.2 (ours.type.member? x.1.signature) x.1)
        = ((theirs.type.members.zipIdx id).map fun x =>
          pairing x.2 (ours.type.member? x.1.signature) x.1).map (.raised n) := by
      rw [map_zipIdx_add, List.map_map]
      exact List.map_congr_left fun x _ => pairing_add ..
    simp only [hmembers, List.isEmpty_map]
    split
    · rfl
    · rfl

/-- From two ledgers of different sizes the same plan comes out, with ids that far apart. -/
theorem matchTypes_raised (first : Index) (types : List IndexedType) {l l' : Ledger} {n : Nat}
    (h : l'.nextId = l.nextId + n) :
    (matchTypes first types l').1 = (matchTypes first types l).1.map (.raised n) := by
  induction types generalizing l l' with
  | nil => rfl
  | cons theirs rest ih =>
    have hnext : (l'.recordItems (theirs.items first)).nextId
        = (l.recordItems (theirs.items first)).nextId + n := by
      rw [Ledger.nextId_recordItems, Ledger.nextId_recordItems, h]
      omega
    rw [(matchTypes_cons ..).1, (matchTypes_cons ..).1, List.map_append, h, matches_add, ih hnext]

/-- What comes later is matched with the ledger of what came before. -/
theorem matchTypes_append (first : Index) (xs ys : List IndexedType) (l : Ledger) :
    (matchTypes first (xs ++ ys) l).1
      = (matchTypes first xs l).1 ++ (matchTypes first ys (matchTypes first xs l).2).1 := by
  induction xs generalizing l with
  | nil => rfl
  | cons theirs rest ih =>
    rw [List.cons_append, (matchTypes_cons ..).1, (matchTypes_cons first theirs rest l).1,
      (matchTypes_cons ..).2, ih, List.append_assoc]

/-- **Matching goes on** behind what was matched before. -/
theorem matchModules_append (first : Index) (xs ys : List IndexedType) :
    (matchModules first ⟨xs ++ ys⟩).2
        = (matchModules first ⟨xs⟩).2.followedBy (matchModules first ⟨ys⟩).2
      ∧ (matchModules first ⟨xs ++ ys⟩).1.types
        = (matchModules first ⟨xs⟩).1.types
          ++ (matchModules first ⟨ys⟩).1.types.map (.raised (matchModules first ⟨xs⟩).2.size) := by
  constructor
  · refine congrArg Ledger.mk ?_
    show (matchModules first ⟨xs ++ ys⟩).2.entries = _
    rw [entries_matchModules, numberedItems_append, ← size_matchModules, List.map_append,
      List.map_map, ← entries_matchModules, entries_matchModules first ⟨ys⟩, List.map_map]
    rfl
  · refine (matchTypes_append first xs ys .empty).trans (congrArg (_ ++ ·) ?_)
    exact matchTypes_raised first ys (Nat.add_comm _ _)

/-! ## Choices that were recorded -/

/-- What is made of the items one by one, each under its id, is made of the old ones where ids are
no greater than before. -/
theorem filter_filterMap_numberedItems {β : Type} {f : Item × Nat → Option β} {number : β → Nat}
    (hnumber : ∀ x, ∀ b ∈ f x, number b = x.2) (first : Index) (xs ys : List IndexedType) :
    ((numberedItems first ⟨xs ++ ys⟩).filterMap f).filter
        (fun b => number b ≤ (matchModules first ⟨xs⟩).2.size)
      = (numberedItems first ⟨xs⟩).filterMap f := by
  rw [numberedItems_append, List.filterMap_append, List.filter_append, List.filter_eq_self.2,
    List.filter_eq_nil_iff.2, List.append_nil]
  · intro b hb hle
    obtain ⟨x, hx, hb⟩ := List.mem_filterMap.1 hb
    obtain ⟨y, hy, rfl⟩ := List.mem_map.1 hx
    have hstart := (bounds_of_mem_numberedItems hy).1
    rw [decide_eq_true_iff, hnumber _ b hb, size_matchModules] at hle
    dsimp only at hle
    omega
  · intro b hb
    obtain ⟨x, hx, hb⟩ := List.mem_filterMap.1 hb
    rw [decide_eq_true_iff, hnumber x b hb]
    exact (bounds_of_mem_numberedItems hx).2

/-- The decision that an item asks for stands under the item's id. -/
theorem Resolver.id_of_mem_itemDecision? (r : Resolver) (x : Item × Nat) :
    ∀ d ∈ itemDecision? r x, d.id = x.2 := by
  match x with
  | (.type _, _) => exact fun _ hd => nomatch hd
  | (.method _ none _, _) => exact fun _ hd => nomatch hd
  | (.method _ (some first) second, id) =>
    intro d hd
    obtain rfl := Option.some.inj hd
    exact r.id_decide id _

/-- **What was matched stays matched.** Let more entries be written at the end of the second input.
Then the ledger and the plan are those of before, and behind them come those of the new entries
alone, read behind the namespaces in file form of the old ones, under ids that go on. So every id of
before finds the entry of before and stands for the same declarations, and whatever the choices are,
the decisions on these ids are the same. -/
theorem merge_holding_append (tag : String) (choices : Option Resolutions)
    (first second : SourceModule) (old new : List Entry) :
    let short := merge tag choices first (second.holding old)
    let alone := merge tag choices first (second.holding (fileScopes old ++ new))
    let whole := merge tag choices first (second.holding (old ++ new))
    whole.ledger = short.ledger.followedBy alone.ledger
      ∧ whole.plan.types = short.plan.types ++ alone.plan.types.map (.raised short.ledger.size)
      ∧ (∀ id e, short.ledger.get? id = some e → whole.ledger.get? id = some e)
      ∧ whole.plan.planned.filter (·.id ≤ short.ledger.size) = short.plan.planned
      ∧ whole.edits.decisions.filter (·.id ≤ short.ledger.size) = short.edits.decisions := by
  intro short alone whole
  have htypes := types_holding_append second old new
  obtain ⟨hledger, hplan⟩ := matchModules_append (Index.ofModule first)
    (Index.ofModule (second.holding old)).types
    (Index.ofModule (second.holding (fileScopes old ++ new))).types
  have hwhole : Index.ofModule (second.holding (old ++ new))
      = ⟨(Index.ofModule (second.holding old)).types
        ++ (Index.ofModule (second.holding (fileScopes old ++ new))).types⟩ :=
    congrArg Index.mk htypes
  rw [← hwhole] at hledger hplan
  refine ⟨hledger, hplan, fun id e he => ?_, ?_, ?_⟩
  · rw [show whole.ledger = short.ledger.followedBy alone.ledger from hledger]
    exact get?_followedBy _ he
  · show (matchModules _ (Index.ofModule _)).1.planned.filter _ = (matchModules _ _).1.planned
    rw [hwhole, planned_matchModules, planned_matchModules, ← List.filterMap_eq_map]
    exact filter_filterMap_numberedItems (fun x _ hb => Option.some.inj hb ▸
      (PlannedItem.agrees_ofItem x.1 x.2).1) ..
  · show (Resolver.resolve _ (matchModules _ (Index.ofModule _)).1).decisions.filter _
      = (Resolver.resolve _ (matchModules _ _).1).decisions
    rw [hwhole, Resolver.decisions_resolve, Resolver.decisions_resolve]
    exact filter_filterMap_numberedItems (Resolver.id_of_mem_itemDecision? ⟨tag, choices⟩) ..

/-- A class written behind a namespace in file form is new in this namespace, under the third id.
The choice for the first id still means the method with two bodies. -/
theorem merge_holding_append_sample :
    let first := sampleClass "T" [sampleMethod "F" "one"]
    let second := sampleClass "T" [sampleMethod "F" "two"]
    let old := second.body.entries ++ (sampleScoped "N" [sampleType "U"]).body.entries
    let choices : Resolutions := ⟨[(1, .keepFirst)], by decide⟩
    let short := merge "merge" (some choices) first (second.holding old)
    let whole := merge "merge" (some choices) first (second.holding (old ++ [sampleType "V"]))
    short.ledger.entries.map (·.location) = ["T", "N.U"]
      ∧ whole.ledger.entries.map (·.location) = ["T", "N.U", "N.V"]
      ∧ whole.ledger.get? 1 = short.ledger.get? 1
      ∧ whole.edits.decisions.filter (·.id ≤ 2) = [⟨1, .keepFirst, .explicit⟩] := by
  intro first second old choices short whole
  obtain ⟨-, -, hget, -, hdecisions⟩ := merge_holding_append "merge" (some choices) first second
    old [sampleType "V"]
  obtain ⟨e, he⟩ : ∃ e, short.ledger.get? 1 = some e :=
    Option.isSome_iff_exists.1 (by decide +kernel)
  exact ⟨by decide +kernel, by decide +kernel, (hget 1 e he).trans he.symm,
    hdecisions.trans (by decide +kernel)⟩

end ModuleMerge
