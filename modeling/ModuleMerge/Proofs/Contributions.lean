import ModuleMerge.Proofs.Numbering
import ModuleMerge.Proofs.Places

/-!
# What the second input brings to a type

A type of both inputs gets one edit, put together from all the methods that the second input
declares for it. What such an edit says about one place of the type, and what it appends, is read
off the methods directly: the last method that says something about a place counts, and every
method that is taken in is appended in order.

The plan of a merge is built by a fold over the plan of the matching. Type by type and member by
member it changes the edit of a name, adds an insertion or a decision, and the same name may come up
again later, when the second input declares the type in parts. To find out what the plan holds in
the end one would have to follow all of that.

Instead, the fold is taken to run over the numbered items of the matching, and each of the three
parts of the plan is read off them by a filter. For insertions and decisions that is immediate: each
item adds one or none at the end. For the edit of a name there is one step between. Items that are
about the name are its contributions, all others do not touch its edit, and the contributions are
folded into the empty edit one after another. In that smaller fold what is appended only grows, and
what becomes of a position is what the last contribution has to say that speaks of it.

So the last one counts, and not the first, where two methods of the second input are paired with the
same method. That is what happens to overloads that differ in nothing but their type parameters.

* `contributions` are the methods, with their ids and the methods they are paired with.
* `appended_edit_resolve` and `fate?_edit_resolve` say what the edit of a type is.
* `noted_applyTo` says what is left of a body after an edit, up to the text before its entries.
-/

set_option autoImplicit false

namespace ModuleMerge

/-- A first element gives what it gives, and then the others theirs. -/
theorem filterMap_cons_eq_append {α β : Type} (f : α → Option β) (x : α) (xs : List α) :
    (x :: xs).filterMap f = (f x).toList ++ xs.filterMap f := by
  cases h : f x <;> simp [h]

/-- If each step appends to a part of a state what it gives out, a run appends all of it. -/
theorem foldl_appends {σ α β : Type} {step : σ → α → σ} {part : σ → List β} {out : α → Option β}
    (h : ∀ s x, part (step s x) = part s ++ (out x).toList) (xs : List α) (s : σ) :
    part (xs.foldl step s) = part s ++ xs.filterMap out := by
  induction xs generalizing s with
  | nil => simp
  | cons x rest ih =>
    rw [List.foldl_cons, ih, h, List.append_assoc, filterMap_cons_eq_append]

/-- A method that the second input has for a type of both, with its id and the method of the first
input that it is paired with. -/
structure Contribution where
  id : Nat
  partner : Option Member
  second : Member

/-- The contribution that an item is for the type with a name. -/
def contributionTo (name : String) : Item × Nat → Option Contribution
  | (.type _, _) => none
  | (.method theirs partner second, id) =>
    if theirs.qualified = name then some ⟨id, partner, second⟩ else none

/-- The methods of all declarations of the type with a name, in source order. -/
def Index.methodsOf (index : Index) (name : String) : List Member :=
  (index.types.filter (·.qualified = name)).flatMap (·.type.members)

/-- The second input's methods for the type with a name, in source order. -/
def contributions (first second : Index) (name : String) : List Contribution :=
  (numberedItems first second).filterMap (contributionTo name)

/-- A contribution tells the item that it was, but for the declaration of its type. -/
theorem contributionTo_eq_some {name : String} {x : Item × Nat} {c : Contribution}
    (h : contributionTo name x = some c) :
    ∃ theirs : IndexedType,
      theirs.qualified = name ∧ x = (.method theirs c.partner c.second, c.id) := by
  obtain ⟨item, id⟩ := x
  cases item with
  | type theirs => simp [contributionTo] at h
  | method theirs partner second =>
    simp only [contributionTo] at h
    split at h
    · rename_i hname
      obtain rfl := Option.some.inj h
      exact ⟨theirs, hname, rfl⟩
    · simp at h

/-- What an item says about a method of the second input is what the two indexes say. -/
theorem mem_numberedItems_method {first second : Index} {theirs : IndexedType}
    {partner : Option Member} {m : Member} {id : Nat}
    (h : (Item.method theirs partner m, id) ∈ numberedItems first second) :
    theirs ∈ second.types ∧ m ∈ theirs.type.members ∧
      ∃ ours, first.get? theirs.qualified = some ours
        ∧ partner = ours.type.member? m.signature := by
  have hmem := List.fst_mem_of_mem_zipIdx h
  obtain ⟨t, ht, hitem⟩ := List.mem_flatMap.1 hmem
  rw [IndexedType.items] at hitem
  cases hours : first.get? t.qualified with
  | none => simp [hours] at hitem
  | some ours =>
    simp only [hours, List.mem_map] at hitem
    obtain ⟨m', hm', heq⟩ := hitem
    cases heq
    exact ⟨ht, hm', ours, hours, rfl⟩

/-- An item about a type says that the first input lacks it. -/
theorem mem_numberedItems_type {first second : Index} {theirs : IndexedType} {id : Nat}
    (h : (Item.type theirs, id) ∈ numberedItems first second) :
    theirs ∈ second.types ∧ first.get? theirs.qualified = none := by
  obtain ⟨t, ht, hitem⟩ := List.mem_flatMap.1 (List.fst_mem_of_mem_zipIdx h)
  rw [IndexedType.items] at hitem
  cases hours : first.get? t.qualified with
  | none =>
    obtain rfl : theirs = t := by simpa [hours] using hitem
    exact ⟨ht, hours⟩
  | some ours => simp [hours] at hitem

/-- Every contribution is an item of the count. -/
theorem exists_item_of_mem_contributions {first second : Index} {name : String} {c : Contribution}
    (h : c ∈ contributions first second name) :
    ∃ theirs : IndexedType, theirs.qualified = name
      ∧ (Item.method theirs c.partner c.second, c.id) ∈ numberedItems first second := by
  obtain ⟨x, hx, hc⟩ := List.mem_filterMap.1 h
  obtain ⟨theirs, hname, rfl⟩ := contributionTo_eq_some hc
  exact ⟨theirs, hname, hx⟩

/-- The method of a contribution stands in a type of the second input. -/
theorem exists_type_of_mem_contributions {first second : Index} {name : String} {c : Contribution}
    (h : c ∈ contributions first second name) :
    ∃ t ∈ second.types, c.second ∈ t.type.members := by
  obtain ⟨t, -, hitem⟩ := exists_item_of_mem_contributions h
  obtain ⟨ht, hmember, -⟩ := mem_numberedItems_method hitem
  exact ⟨t, ht, hmember⟩

/-- The partner of a contribution is what the first input finds under its signature. -/
theorem partner_of_mem_contributions {first second : Index} {name : String} {c : Contribution}
    {ours : IndexedType} (hours : first.get? name = some ours)
    (h : c ∈ contributions first second name) :
    c.partner = ours.type.member? c.second.signature := by
  obtain ⟨theirs, rfl, hitem⟩ := exists_item_of_mem_contributions h
  obtain ⟨-, -, ours', hours', hpartner⟩ := mem_numberedItems_method hitem
  rw [hours] at hours'
  rw [hpartner, ← Option.some.inj hours']

/-- Of the items of one type, the contributions to a name are all its methods or none of them. The
first input has the type, so the items are its methods and not the type as a whole. -/
theorem map_second_contributionTo {first : Index} {name : String} {ours : IndexedType}
    (hours : first.get? name = some ours) (theirs : IndexedType) (id : Nat) :
    (((theirs.items first).zipIdx id).filterMap (contributionTo name)).map Contribution.second
      = if theirs.qualified = name then theirs.type.members else [] := by
  rw [IndexedType.items]
  by_cases hname : theirs.qualified = name
  · subst hname
    simp only [hours, if_pos]
    generalize theirs.type.members = ms
    induction ms generalizing id with
    | nil => rfl
    | cons m rest ih => simpa [List.zipIdx_cons, contributionTo] using ih (id + 1)
  · rw [if_neg hname, List.map_eq_nil_iff, List.filterMap_eq_nil_iff]
    rintro ⟨item, id'⟩ hitem
    have hmem := List.fst_mem_of_mem_zipIdx hitem
    cases hget : first.get? theirs.qualified with
    | none =>
      obtain rfl : item = .type theirs := by simpa [hget] using hmem
      rfl
    | some ours' =>
      obtain ⟨m, -, rfl⟩ : ∃ m ∈ theirs.type.members,
          Item.method theirs (ours'.type.member? m.signature) m = item := by
        simpa [hget] using hmem
      simp [contributionTo, hname]

/-- The contributions to a type of both inputs are all the methods of the second input's
declarations of the type. -/
theorem map_second_contributions {first second : Index} {name : String} {ours : IndexedType}
    (hours : first.get? name = some ours) :
    (contributions first second name).map Contribution.second = second.methodsOf name := by
  have step : ∀ (types : List IndexedType) (id : Nat),
      (((types.flatMap (·.items first)).zipIdx id).filterMap (contributionTo name)).map
          Contribution.second
        = (types.filter (·.qualified = name)).flatMap (·.type.members) := by
    intro types
    induction types with
    | nil => exact fun _ => rfl
    | cons theirs rest ih =>
      intro id
      rw [List.flatMap_cons, List.zipIdx_append, List.filterMap_append, List.map_append, ih,
        map_second_contributionTo hours, List.filter_cons]
      by_cases hname : theirs.qualified = name <;> simp [hname]
  exact step second.types 1

/-- Where both inputs have a type, the ledger's entries about it are those of the contributions. An
entry about a type that was added has another location, since the first input lacks it. -/
theorem filter_location_entries {first second : Index} {name : String} {ours : IndexedType}
    (hours : first.get? name = some ours) :
    ((matchModules first second).2.entries.filter (·.location = name)).map
        (fun e => (e.id, e.signature))
      = (contributions first second name).map fun c => (c.id, some c.second.signature) := by
  have hitem : ∀ x ∈ numberedItems first second,
      (if x.1.difference.location = name then [(x.2, x.1.difference.signature)] else [])
        = (contributionTo name x).toList.map fun c => (c.id, some c.second.signature) := by
    rintro ⟨item, id⟩ hx
    cases item with
    | type theirs =>
      have hnone := (mem_numberedItems_type hx).2
      have hne : theirs.qualified ≠ name := by
        rintro rfl
        simp [hours] at hnone
      simp [contributionTo, Item.difference, hne]
    | method theirs partner second =>
      by_cases hname : theirs.qualified = name <;> simp [contributionTo, hname]
  rw [entries_matchModules, contributions]
  generalize numberedItems first second = xs at hitem
  induction xs with
  | nil => rfl
  | cons x rest ih =>
    rw [filterMap_cons_eq_append, List.map_append, ← hitem x List.mem_cons_self,
      ← ih fun y hy => hitem y (List.mem_cons_of_mem _ hy), List.map_cons, List.filter_cons]
    by_cases hname : x.1.difference.location = name <;>
      simp [LedgerEntry.ofDifference, hname]

/-- The second input's methods of a type with the ids of their differences. -/
def numberedMethods (first second : Index) (name : String) : List (Member × Nat) :=
  (contributions first second name).map fun c => (c.second, c.id)

/-- They are the methods of all its declarations, in source order. -/
theorem map_fst_numberedMethods {first second : Index} {name : String} {ours : IndexedType}
    (hours : first.get? name = some ours) :
    (numberedMethods first second name).map Prod.fst = second.methodsOf name := by
  rw [← map_second_contributions hours, numberedMethods, List.map_map]
  rfl

/-- The ids are those of the ledger's entries about the type, in order. -/
theorem ids_numberedMethods {first second : Index} {name : String} {ours : IndexedType}
    (hours : first.get? name = some ours) :
    ((matchModules first second).2.entries.filter (·.location = name)).map
        (fun e => (e.id, e.signature))
      = (numberedMethods first second name).map fun x => (x.2, some x.1.signature) := by
  rw [filter_location_entries hours, numberedMethods, List.map_map]
  rfl

/-- The ledger has an entry for every contribution. -/
theorem exists_entry_of_mem_contributions {first second : Index} {name : String}
    {ours : IndexedType} (hours : first.get? name = some ours) {c : Contribution}
    (hc : c ∈ contributions first second name) :
    ∃ e ∈ (matchModules first second).2.entries,
      e.id = c.id ∧ e.location = name ∧ e.signature = some c.second.signature := by
  have hmem := List.mem_map_of_mem (f := fun c => (c.id, some c.second.signature)) hc
  rw [← filter_location_entries hours] at hmem
  obtain ⟨e, he, heq⟩ := List.mem_map.1 hmem
  obtain ⟨he, hlocation⟩ := List.mem_filter.1 he
  exact ⟨e, he, congrArg Prod.fst heq, of_decide_eq_true hlocation, congrArg Prod.snd heq⟩

/-! ## Decisions on contributions

The decision on two methods with one signature says two things at once: what becomes of the first
input's method and whether the second one's is taken in. Here each is a function of the decision, so
that the two parts of an edit can be computed apart. -/

namespace Disposition

/-- What becomes of the first input's method. -/
def fate? (tag : String) (id : Nat) : Disposition → Option Fate
  | keepFirst => none
  | keepBoth => some (.annotate (note tag id .fromFirst))
  | keepSecond | deduplicate => some .drop

/-- What is noted on the second input's method, if it is taken in. -/
def provenance? : Disposition → Option Provenance
  | keepFirst => none
  | keepSecond => some .chosenSecond
  | keepBoth => some .fromSecond
  | deduplicate => some .duplicateKeptFromSecond

end Disposition

namespace Resolver

/-- The decision on two methods with one signature. -/
def verdict (r : Resolver) (id : Nat) (ours theirs : Method) : Decision :=
  r.decide id (if ours.sameBody theirs then .deduplicate else .keepBoth)

/-- What a contribution says about the method at a place of the first input's type. -/
def fateAt? (r : Resolver) (position : Nat) (c : Contribution) : Option Fate :=
  match c.partner with
  | none => none
  | some first =>
    if first.position = position then
      (r.verdict c.id first.method c.second.method).disposition.fate? r.tag c.id
    else none

/-- What is noted on a contribution, if it is taken in. -/
def provenance? (r : Resolver) (c : Contribution) : Option Provenance :=
  match c.partner with
  | none => some .addedFromSecond
  | some first => (r.verdict c.id first.method c.second.method).disposition.provenance?

/-- The entry that a contribution appends. -/
def taken? (r : Resolver) (c : Contribution) : Option Entry :=
  (r.provenance? c).map fun p => c.second.entry.annotated (note r.tag c.id p)

/-- The edit of a type after a contribution. -/
def contribute (r : Resolver) (edit : TypeEdit) (c : Contribution) : TypeEdit :=
  (r.resolveMember edit (pairing c.id c.partner c.second)).1

end Resolver

/-- A fate that is set for a place is found there, and it replaces the one before. -/
theorem TypeEdit.fate?_setFate (edit : TypeEdit) (place position : Nat) (fate : Fate) :
    (edit.setFate place fate).fate? position
      = if place = position then some fate else edit.fate? position := by
  by_cases h : place = position
  · simp [setFate, fate?, h]
  · simp only [setFate, fate?, List.find?_cons, h, decide_false, List.find?_filter, if_false]
    congr 2
    funext pair
    by_cases hp : pair.1 = position
    · simp [hp, Ne.symm h]
    · simp [hp]

namespace Resolver

variable (r : Resolver)

/-- A contribution with a partner is decided on, and the edit is changed by the decision. -/
theorem resolveMember_pairing (edit : TypeEdit) (c : Contribution) {first : Member}
    (hc : c.partner = some first) :
    r.resolveMember edit (pairing c.id c.partner c.second)
      = (r.apply (r.verdict c.id first.method c.second.method) first c.second edit,
        some (r.verdict c.id first.method c.second.method)) := by
  rw [hc, pairing, verdict]
  cases first.method.sameBody c.second.method <;> rfl

theorem id_decide (id : Nat) (byDefault : Disposition) : (r.decide id byDefault).id = id := by
  rw [decide]
  split <;> rfl

/-- A contribution appends its entry, or nothing. -/
theorem appended_contribute (edit : TypeEdit) (c : Contribution) :
    (r.contribute edit c).appended = edit.appended ++ (r.taken? c).toList := by
  cases hc : c.partner with
  | none => simp [contribute, hc, pairing, resolveMember, taken?, provenance?, TypeEdit.append]
  | some first =>
    rw [contribute, resolveMember_pairing r edit c hc, taken?, provenance?, hc, apply]
    have hid : (r.verdict c.id first.method c.second.method).id = c.id := r.id_decide _ _
    cases hd : (r.verdict c.id first.method c.second.method).disposition <;>
      simp [hd, hid, Disposition.provenance?, TypeEdit.append, TypeEdit.setFate]

/-- What a contribution says about a place goes before what was said. -/
theorem fate?_contribute (edit : TypeEdit) (c : Contribution) (position : Nat) :
    (r.contribute edit c).fate? position
      = (r.fateAt? position c).or (edit.fate? position) := by
  cases hc : c.partner with
  | none => simp [contribute, hc, pairing, resolveMember, fateAt?, TypeEdit.append, TypeEdit.fate?]
  | some first =>
    rw [contribute, resolveMember_pairing r edit c hc, fateAt?, hc, apply]
    have hid : (r.verdict c.id first.method c.second.method).id = c.id := r.id_decide _ _
    have happ : ∀ (e : TypeEdit) (entry : Entry),
        (e.append entry).fate? position = e.fate? position := fun _ _ => rfl
    cases hd : (r.verdict c.id first.method c.second.method).disposition <;>
      by_cases hp : first.position = position <;>
      simp [hd, hid, hp, Disposition.fate?, happ, TypeEdit.fate?_setFate]

/-- The last contribution that says something about a place counts. -/
theorem fate?_foldl_contribute (cs : List Contribution) (edit : TypeEdit) (position : Nat) :
    (cs.foldl r.contribute edit).fate? position
      = (cs.reverse.findSome? (r.fateAt? position)).or (edit.fate? position) := by
  induction cs generalizing edit with
  | nil => simp
  | cons c rest ih =>
    rw [List.foldl_cons, ih, fate?_contribute, List.reverse_cons, List.findSome?_append,
      Option.or_assoc]
    cases h : r.fateAt? position c <;> simp [h]

/-- What a contribution says about a place is said about its partner, by the verdict. -/
theorem exists_partner_of_fateAt? {position : Nat} {c : Contribution} {fate : Fate}
    (h : r.fateAt? position c = some fate) :
    ∃ first, c.partner = some first ∧ first.position = position
      ∧ (r.verdict c.id first.method c.second.method).disposition.fate? r.tag c.id = some fate := by
  rw [fateAt?] at h
  cases hc : c.partner with
  | none => simp [hc] at h
  | some first =>
    simp only [hc] at h
    split at h
    · rename_i hposition
      exact ⟨first, rfl, hposition, h⟩
    · contradiction

/-- The only note that a contribution puts on a method of the first input. -/
theorem fate_annotate {position : Nat} {c : Contribution} {text : String}
    (h : r.fateAt? position c = some (.annotate text)) : text = note r.tag c.id .fromFirst := by
  obtain ⟨first, -, -, hfate⟩ := r.exists_partner_of_fateAt? h
  cases hd : (r.verdict c.id first.method c.second.method).disposition <;>
    simp [hd, Disposition.fate?] at hfate
  exact hfate.symm

/-! ## The plan of a merge

One lemma for each part of the plan says what one item does to it, and one says what all items have
done. -/

/-- The decision that an item asks for. -/
def itemDecision? : Item × Nat → Option Decision
  | (.method _ (some first) second, id) => some (r.verdict id first.method second.method)
  | _ => none

/-- What an item puts into the module. -/
def insertion? : Item × Nat → Option Insertion
  | (.type theirs, id) =>
    some ⟨theirs.path, theirs.entry.annotated (note r.tag id .addedFromSecond)⟩
  | (.method .., _) => none

/-- An item changes the edit of its own type, if it is about a method, and no other edit. -/
theorem edit_resolveItem (plan : EditPlan) (x : Item × Nat) (name : String) :
    (r.resolveItem plan x).edit name
      = (contributionTo name x).toList.foldl r.contribute (plan.edit name) := by
  obtain ⟨item, id⟩ := x
  cases item with
  | type theirs => rfl
  | method theirs partner second =>
    rw [resolveItem, resolveType, EditPlan.edit_eq, EditPlan.setPair_eq, valueOf?_setValue,
      contributionTo]
    by_cases h : theirs.qualified = name
    · subst h
      simp [resolveMembers, contribute]
    · simp [h, EditPlan.edit_eq]

/-- The edits of a plan never come to have two of one name. -/
theorem keyed_resolveItem {plan : EditPlan} (h : Keyed plan.edits) (x : Item × Nat) :
    Keyed (r.resolveItem plan x).edits := by
  obtain ⟨item, id⟩ := x
  cases item with
  | type theirs => exact h
  | method theirs partner second =>
    rw [resolveItem, resolveType, EditPlan.setPair_eq]
    exact h.setValue _ _

theorem insertions_resolveItem (plan : EditPlan) (x : Item × Nat) :
    (r.resolveItem plan x).insertions = plan.insertions ++ (r.insertion? x).toList := by
  obtain ⟨item, id⟩ := x
  cases item with
  | type theirs => rfl
  | method theirs partner second => simp [resolveItem, resolveType, insertion?]

theorem decisions_resolveItem (plan : EditPlan) (x : Item × Nat) :
    (r.resolveItem plan x).decisions = plan.decisions ++ (itemDecision? r x).toList := by
  obtain ⟨item, id⟩ := x
  cases item with
  | type theirs => simp [resolveItem, resolveType, itemDecision?]
  | method theirs partner second =>
    cases partner with
    | none => simp [resolveItem, resolveType, resolveMembers, pairing, resolveMember, itemDecision?]
    | some first =>
      have hmember := r.resolveMember_pairing (plan.edit theirs.qualified)
        ⟨id, some first, second⟩ rfl
      simp only at hmember
      simp [resolveItem, resolveType, resolveMembers, hmember, itemDecision?]

/-- After all items, the edit of a name has seen those that are contributions to it. -/
theorem edit_foldl_resolveItem (xs : List (Item × Nat)) (plan : EditPlan) (name : String) :
    (xs.foldl r.resolveItem plan).edit name
      = (xs.filterMap (contributionTo name)).foldl r.contribute (plan.edit name) := by
  induction xs generalizing plan with
  | nil => rfl
  | cons x rest ih =>
    rw [List.foldl_cons, ih, edit_resolveItem, List.filterMap_cons]
    cases contributionTo name x <;> rfl

/-- **The edit of a type is made of the contributions to it**, one after another. -/
theorem edit_resolve (first second : Index) (name : String) :
    (r.resolve (matchModules first second).1).edit name
      = (contributions first second name).foldl r.contribute .empty := by
  rw [resolve_matchModules, edit_foldl_resolveItem]
  rfl

/-- What an edit appends: all contributions that are taken, in the order of the second input. -/
theorem appended_edit_resolve (first second : Index) (name : String) :
    ((r.resolve (matchModules first second).1).edit name).appended
      = (contributions first second name).filterMap r.taken? := by
  rw [edit_resolve, foldl_appends r.appended_contribute]
  rfl

/-- What an edit says of a place: the last contribution counts that says anything. -/
theorem fate?_edit_resolve (first second : Index) (name : String) (position : Nat) :
    ((r.resolve (matchModules first second).1).edit name).fate? position
      = (contributions first second name).reverse.findSome? (r.fateAt? position) := by
  rw [edit_resolve, fate?_foldl_contribute]
  exact Option.or_none

theorem keyed_edits_resolve (first second : Index) :
    Keyed (r.resolve (matchModules first second).1).edits := by
  rw [resolve_matchModules]
  refine List.foldlRecOn _ r.resolveItem (motive := fun plan => Keyed plan.edits) ?_ ?_
  · exact keyed_nil
  · exact fun plan h x _ => r.keyed_resolveItem h x

/-- **What is inserted**: one new type for each item that is a type, in the order of the items. -/
theorem insertions_resolve (first second : Index) :
    (r.resolve (matchModules first second).1).insertions
      = (numberedItems first second).filterMap r.insertion? := by
  rw [resolve_matchModules, foldl_appends r.insertions_resolveItem]
  rfl

/-- What an edit appends is a method of the second input with a note. -/
theorem exists_method_of_mem_appended {first second : Index} {name : String} {e : Entry}
    (h : e ∈ ((r.resolve (matchModules first second).1).edit name).appended) :
    ∃ t ∈ second.types, ∃ m ∈ t.type.members, ∃ id p,
      e = m.entry.annotated (note r.tag id p) := by
  rw [appended_edit_resolve] at h
  obtain ⟨c, hc, htaken⟩ := List.mem_filterMap.1 h
  obtain ⟨t, ht, hm⟩ := exists_type_of_mem_contributions hc
  obtain ⟨p, -, rfl⟩ := Option.map_eq_some_iff.1 htaken
  exact ⟨t, ht, c.second, hm, c.id, p, rfl⟩

/-- What is inserted is a type of the second input that the first lacks, with a note. -/
theorem exists_type_of_mem_insertions {first second : Index} {i : Insertion}
    (h : i ∈ (r.resolve (matchModules first second).1).insertions) :
    ∃ t ∈ second.types, first.get? t.qualified = none ∧ ∃ id,
      i = ⟨t.path, t.entry.annotated (note r.tag id .addedFromSecond)⟩ := by
  rw [insertions_resolve] at h
  obtain ⟨⟨item, id⟩, hmem, hitem⟩ := List.mem_filterMap.1 h
  cases item with
  | type t =>
    obtain ⟨ht, hnone⟩ := mem_numberedItems_type hmem
    exact ⟨t, ht, hnone, id, (Option.some.inj hitem).symm⟩
  | method t partner m => simp [insertion?] at hitem

/-- **What was decided**: one decision for each item with a partner, in the order of the items. -/
theorem decisions_resolve (first second : Index) :
    (r.resolve (matchModules first second).1).decisions
      = (numberedItems first second).filterMap (itemDecision? r) := by
  rw [resolve_matchModules, foldl_appends r.decisions_resolveItem]
  rfl

end Resolver

/-! ## Bodies after an edit

The text before an entry may change, because it takes over lines from entries that were dropped. All
else is as the fates have it, and it is seen best when that text is left out. -/

/-- A declaration with the notes on it: an entry without the text before it. -/
def Entry.noted (e : Entry) : Decl × List String :=
  (e.decl, e.annotations)

/-- What a fate leaves of a declaration with its notes. -/
def Fate.leave : Option Fate → Decl × List String → Option (Decl × List String)
  | none, noted => some noted
  | some .drop, _ => none
  | some (.annotate note), (decl, notes) => some (decl, notes ++ [note])

/-- Along a body, each entry is left as its own fate says. What is carried over from dropped entries
makes no difference, and so the induction is for any text that is carried. -/
theorem noted_survivors (edit : TypeEdit) (position : Nat) (carried : String)
    (es : List Entry) :
    (edit.survivors position carried es).1.map Entry.noted
      = (es.zipIdx position).filterMap fun x => Fate.leave (edit.fate? x.2) x.1.noted := by
  induction es generalizing position carried with
  | nil => rfl
  | cons e rest ih =>
    rw [TypeEdit.survivors, List.zipIdx_cons, List.filterMap_cons]
    cases hfate : edit.fate? position with
    | none => simpa [Fate.leave, Entry.noted, Entry.carrying] using ih (position + 1) ""
    | some fate =>
      cases fate with
      | drop => simpa [Fate.leave] using ih (position + 1) _
      | annotate note =>
        simpa [Fate.leave, Entry.noted, Entry.carrying, Entry.annotated] using ih (position + 1) ""

theorem noted_carryInto (carried : String) (es : List Entry) :
    (carryInto carried es).1.map Entry.noted = es.map Entry.noted := by
  cases es <;> rfl

/-- **What an edit makes of a body**: every entry as its fate leaves it, then what is appended. -/
theorem noted_applyTo (edit : TypeEdit) (t : TypeDecl) :
    (edit.applyTo t).body.entries.map Entry.noted
      = (t.body.entries.zipIdx.filterMap fun x => Fate.leave (edit.fate? x.2) x.1.noted)
        ++ edit.appended.map Entry.noted := by
  rw [TypeEdit.applyTo, List.map_append, noted_survivors, noted_carryInto]

/-- A contribution that is taken in is in the body after the edit, with a note on it. -/
theorem Resolver.noted_mem_applyTo (r : Resolver) {first second : Index} {name : String}
    (ours : TypeDecl) {c : Contribution} {p : Provenance}
    (hc : c ∈ contributions first second name) (hp : r.provenance? c = some p) :
    (c.second.entry.annotated (note r.tag c.id p)).noted
      ∈ (((r.resolve (matchModules first second).1).edit name).applyTo ours).body.entries.map
        Entry.noted := by
  rw [noted_applyTo, appended_edit_resolve]
  refine List.mem_append_right _ (List.mem_map_of_mem (List.mem_filterMap.2 ⟨c, hc, ?_⟩))
  rw [taken?, hp]
  rfl

/-- Without fates all entries stay as they are, and nothing is carried over. -/
theorem survivors_of_no_fates (edit : TypeEdit) (h : edit.fates = []) (position : Nat)
    (es : List Entry) : edit.survivors position "" es = (es, "") := by
  induction es generalizing position with
  | nil => rfl
  | cons e rest ih =>
    obtain ⟨leading, notes, decl⟩ := e
    simp [TypeEdit.survivors, TypeEdit.fate?, h, ih, Entry.carrying]

@[simp] theorem applyTo_empty (t : TypeDecl) : TypeEdit.empty.applyTo t = t := by
  obtain ⟨name, header, ⟨entries, trailing⟩, footer⟩ := t
  rw [TypeEdit.applyTo, survivors_of_no_fates _ rfl]
  simp [TypeEdit.empty, carryInto]

end ModuleMerge
