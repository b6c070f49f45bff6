import ModuleMerge.Proofs.PlainMerge

/-!
# Merging a module with itself

A module brings nothing new to itself, and a method that is alone with its signature comes out of
the merge once. Signatures are what methods are paired by, and they leave out more than the language
does: a generic method and a plain one may have one signature. Then both are compared with the
earlier one, and the later one is in conflict with it.

One would expect that all methods are duplicates, the first of each two is dropped, and the copies
at the end of the body are what was there. This is so for a method that no other has the signature
of. Its copy is the only one that has it for a partner, and it drops it. With two methods of one
signature the copies of both have the earlier one for a partner; the copy of the later one is in
conflict with it and comes last, so the earlier one stays, and of the later one nobody says
anything.

That the ledger mentions every method once needs only that no two types have one name. A type in two
parts would be found by the first part only, and the methods of the other would be looked for there.

The methods are compared as lists without their places, since the copies stand elsewhere than what
they are copies of.

* `TypeDecl.methods` are the methods of a type without their places, and `methods_applyTo` says what
  an edit makes of them.
* `Alone` says that a method is the only one with its signature, and `fate?_of_alone` that it leaves
  for its own copy.
* `merge_self` is the main result, for every module with one type to a name.
* `merge_self_overloads` is a module in conflict with itself.
-/

set_option autoImplicit false

namespace ModuleMerge

/-! ## Methods without their places

An edit was described by what it leaves of each entry with its notes. Methods are read off that. -/

/-- The method that a declaration is. -/
def Decl.method? : Decl → Option Method
  | .method m => some m
  | _ => none

namespace TypeDecl

/-- The methods that stand directly in the body of a type, in order, without their places. -/
def methods (t : TypeDecl) : List Method :=
  t.members.map Member.method

/-- They can be read off the entries without the text before them. -/
theorem methods_eq_filterMap (t : TypeDecl) :
    t.methods = (t.body.entries.map Entry.noted).filterMap (·.1.method?) := by
  rw [methods, members]
  generalize t.body.entries = es
  generalize 0 = position
  induction es generalizing position with
  | nil => rfl
  | cons e rest ih =>
    obtain ⟨leading, notes, decl⟩ := e
    cases decl with
    | method m => exact congrArg (m :: ·) (ih (position + 1))
    | scope _ | type _ | verbatim _ => exact ih (position + 1)

/-- The methods of a type that an edit leaves. -/
def keptMethods (edit : TypeEdit) (t : TypeDecl) : List Method :=
  t.body.entries.zipIdx.filterMap fun x =>
    (Fate.leave (edit.fate? x.2) x.1.noted).bind (·.1.method?)

/-- After an edit a type has the methods that stay, and then those that the edit appends. -/
theorem methods_applyTo (edit : TypeEdit) (t : TypeDecl) :
    (edit.applyTo t).methods = t.keptMethods edit ++ edit.appended.filterMap (·.decl.method?) := by
  rw [methods_eq_filterMap, noted_applyTo, List.filterMap_append, List.filterMap_filterMap,
    List.filterMap_map]
  rfl

/-- A method that stays is one of the type's that the edit does not drop. -/
theorem exists_member_of_mem_keptMethods {edit : TypeEdit} {t : TypeDecl} {m : Method}
    (h : m ∈ t.keptMethods edit) :
    ∃ n ∈ t.members, n.method = m ∧ edit.fate? n.position ≠ some .drop := by
  obtain ⟨⟨⟨leading, notes, decl⟩, position⟩, hx, hleave⟩ := List.mem_filterMap.1 h
  obtain ⟨⟨decl', notes'⟩, hleft, hmethod⟩ := Option.bind_eq_some_iff.1 hleave
  obtain ⟨rfl, hkept⟩ : decl' = decl ∧ edit.fate? position ≠ some .drop := by
    cases hfate : edit.fate? position with
    | none => simp_all [Fate.leave, Entry.noted]
    | some fate => cases fate <;> simp_all [Fate.leave, Entry.noted]
  cases decl' with
  | method n =>
    obtain rfl : n = m := Option.some.inj hmethod
    exact ⟨⟨position, leading, notes, n⟩, mem_membersFrom_iff.2 hx, rfl, hkept⟩
  | scope _ | type _ | verbatim _ => simp [Decl.method?] at hmethod

end TypeDecl

/-! ## One module twice

The section has the condition that no two types have one name. A look-up of a type's name then gives
the type, so the contributions to the name are the type's own methods. -/

/-- No other method of the type has the signature of this one. -/
def TypeDecl.Alone (t : TypeDecl) (m : Member) : Prop :=
  ∀ n ∈ t.members, n.signature = m.signature → n = m

/-- What is alone with its signature is what the signature means. -/
theorem TypeDecl.Alone.member? {t : TypeDecl} {m : Member} (halone : t.Alone m)
    (hm : m ∈ t.members) : t.member? m.signature = some m := by
  cases hfound : t.member? m.signature with
  | none => exact absurd (List.find?_eq_none.1 hfound m hm) (by simp)
  | some n =>
    have hsignature := (getElem?_of_member? hfound).2
    rw [halone n (List.mem_of_find?_eq_some hfound) hsignature]

theorem TypeDecl.alone_of_countP {t : TypeDecl} {m : Member} (hm : m ∈ t.members)
    (h : t.methods.countP (·.signature = m.signature) ≤ 1) : t.Alone m := by
  intro n hn hsignature
  have hmember : ∀ k ∈ t.members, k.signature = m.signature →
      k ∈ t.members.filter (·.method.signature = m.signature) :=
    fun k hk hsame => List.mem_filter.2 ⟨hk, decide_eq_true hsame⟩
  have hm' := hmember m hm rfl
  have hn' := hmember n hn hsignature
  rw [methods, List.countP_map, List.countP_eq_length_filter] at h
  generalize hsame : t.members.filter (·.method.signature = m.signature) = same at hm' hn'
  have hlength : same.length ≤ 1 := hsame ▸ h
  match same, hlength with
  | [], _ => exact absurd hm' List.not_mem_nil
  | [k], _ => rw [List.mem_singleton.1 hm', List.mem_singleton.1 hn']

namespace Resolver

/-- A detect pass takes every contribution in. -/
theorem exists_provenance_of_detect (tag : String) (c : Contribution) :
    ∃ p, provenance? ⟨tag, none⟩ c = some p := by
  rw [provenance?]
  cases c.partner with
  | none => exact ⟨_, rfl⟩
  | some first =>
    simp only [verdict, decide, Option.bind_none]
    cases first.method.sameBody c.second.method with
    | true => exact ⟨_, rfl⟩
    | false => exact ⟨_, rfl⟩

/-- What is taken in are the second input's methods, all of them and in order. -/
theorem methods_taken_of_detect (tag : String) (cs : List Contribution) :
    (cs.filterMap (taken? ⟨tag, none⟩)).filterMap (·.decl.method?)
      = cs.map (·.second.method) := by
  have htaken : ∀ c, (taken? ⟨tag, none⟩ c).bind (·.decl.method?) = some c.second.method := by
    intro c
    obtain ⟨p, hp⟩ := exists_provenance_of_detect tag c
    rw [taken?, hp]
    rfl
  rw [List.filterMap_filterMap, funext htaken]
  exact congrFun List.filterMap_eq_map' cs

end Resolver

section

variable {x : SourceModule} (hdistinct : ((Index.ofModule x).types.map IndexedType.qualified).Nodup)
include hdistinct

/-- Without partial types the methods of a name are those of one type. -/
theorem methodsOf_of_mem {t : IndexedType} (ht : t ∈ (Index.ofModule x).types) :
    (Index.ofModule x).methodsOf t.qualified = t.type.members := by
  rw [Index.methodsOf, filter_of_nodup hdistinct ht]
  exact List.append_nil _

/-- The items of a module against itself: its methods, each with the earliest of its signature. -/
theorem items_self {t : IndexedType} (ht : t ∈ (Index.ofModule x).types) :
    t.items (Index.ofModule x)
      = t.type.members.map fun m => .method t (t.type.member? m.signature) m := by
  rw [IndexedType.items, Index.get?_of_mem hdistinct ht]

/-- What the edit of a type against itself appends are its own methods. -/
theorem appended_self (tag : String) {t : IndexedType} (ht : t ∈ (Index.ofModule x).types) :
    (mergeEdit tag none x x t.qualified).appended.filterMap (·.decl.method?) = t.type.methods := by
  rw [mergeEdit, Resolver.appended_edit_resolve, Resolver.methods_taken_of_detect,
    TypeDecl.methods, ← methodsOf_of_mem hdistinct ht,
    ← map_second_contributions (Index.get?_of_mem hdistinct ht), List.map_map]
  rfl

/-- A method that is alone with its signature leaves: its copy is the same. -/
theorem fate?_of_alone (tag : String) {t : IndexedType} (ht : t ∈ (Index.ofModule x).types)
    {m : Member} (hm : m ∈ t.type.members) (halone : t.type.Alone m) :
    (mergeEdit tag none x x t.qualified).fate? m.position = some .drop := by
  have hget := Index.get?_of_mem hdistinct ht
  have hsecond : (contributions (Index.ofModule x) (Index.ofModule x) t.qualified).map
      Contribution.second = t.type.members := by
    rw [map_second_contributions hget, methodsOf_of_mem hdistinct ht]
  rw [mergeEdit, Resolver.fate?_edit_resolve]
  generalize hcs : contributions (Index.ofModule x) (Index.ofModule x) t.qualified = cs at hsecond
  have hmember : ∀ c ∈ cs, c.second ∈ t.type.members := by
    rw [← hsecond]
    exact fun c hc => List.mem_map_of_mem hc
  have hpartner : ∀ c ∈ cs, c.partner = t.type.member? c.second.signature := by
    rw [← hcs]
    exact fun c hc => partner_of_mem_contributions hget hc
  have hdrop : ∀ c ∈ cs, c.second = m →
      Resolver.fateAt? ⟨tag, none⟩ m.position c = some .drop := by
    rintro c hc rfl
    rw [Resolver.fateAt?, hpartner c hc, halone.member? hm]
    simp [Resolver.verdict, Resolver.decide, Method.sameBody, Disposition.fate?]
  cases hfate : cs.reverse.findSome? (Resolver.fateAt? ⟨tag, none⟩ m.position) with
  | none =>
    rw [← hsecond] at hm
    obtain ⟨c, hc, hcopy⟩ := List.mem_map.1 hm
    have hnone := List.findSome?_eq_none_iff.1 hfate c (List.mem_reverse.2 hc)
    rw [hdrop c hc hcopy] at hnone
    contradiction
  | some fate =>
    -- Only its copy has the method for a partner.
    obtain ⟨c, hc, hsays⟩ := List.exists_of_findSome?_eq_some hfate
    rw [List.mem_reverse] at hc
    obtain ⟨first, hfirst, hposition, -⟩ := Resolver.exists_partner_of_fateAt? _ hsays
    rw [hpartner c hc] at hfirst
    obtain rfl := TypeDecl.eq_of_position_eq (List.mem_of_find?_eq_some hfirst) hm hposition
    have hcopy := halone _ (hmember c hc) (TypeDecl.getElem?_of_member? hfirst).2.symm
    rw [← hsays, hdrop c hc hcopy]

/-! ### What the ledger says

The partner of a method is the earliest with its signature, be it the method itself or not. -/

/-- Every entry is about a method and the earliest of its signature. -/
theorem exists_methods_of_mem_ledger {e : LedgerEntry}
    (he : e ∈ (matchModules (Index.ofModule x) (Index.ofModule x)).2.entries) :
    ∃ t ∈ (Index.ofModule x).types, ∃ m ∈ t.type.members, ∃ first,
      t.type.member? m.signature = some first
        ∧ e = LedgerEntry.ofDifference e.id (Item.method t (some first) m).difference := by
  obtain ⟨item, hitem, hentry⟩ := exists_item_of_mem_ledger he
  cases item with
  | type t =>
    obtain ⟨ht, hnone⟩ := mem_numberedItems_type hitem
    rw [Index.get?_of_mem hdistinct ht] at hnone
    contradiction
  | method t partner m =>
    obtain ⟨ht, hm, ours, hours, rfl⟩ := mem_numberedItems_method hitem
    rw [Index.get?_of_mem hdistinct ht] at hours
    obtain rfl := Option.some.inj hours
    obtain ⟨first, hfirst⟩ := Option.isSome_iff_exists.1 (TypeDecl.isSome_member?_of_mem hm)
    exact ⟨t, ht, m, hm, first, hfirst, hfirst ▸ hentry⟩

/-- Every method has an entry. -/
theorem exists_entry_of_mem_members {t : IndexedType} (ht : t ∈ (Index.ofModule x).types)
    {m first : Member} (hm : m ∈ t.type.members)
    (hfirst : t.type.member? m.signature = some first) :
    ∃ id, LedgerEntry.ofDifference id (Item.method t (some first) m).difference
      ∈ (matchModules (Index.ofModule x) (Index.ofModule x)).2.entries := by
  have hitem : Item.method t (some first) m ∈ t.items (Index.ofModule x) := by
    rw [items_self hdistinct ht, ← hfirst]
    exact List.mem_map_of_mem hm
  obtain ⟨id, hid⟩ := exists_id_of_item ht hitem
  exact ⟨id, mem_ledger_of_mem_numberedItems hid⟩

/-- Every method has one entry, in the order of the source text. -/
theorem ledger_self :
    (matchModules (Index.ofModule x) (Index.ofModule x)).2.entries.map
        (fun e => (e.location, e.signature))
      = (Index.ofModule x).types.flatMap fun t =>
          t.type.members.map fun m => (t.qualified, some m.signature) := by
  have hforget : (fun e : LedgerEntry => (e.location, e.signature))
      ∘ (fun x : Item × Nat => LedgerEntry.ofDifference x.2 x.1.difference)
        = (fun i => (i.difference.location, i.difference.signature)) ∘ Prod.fst := rfl
  rw [entries_matchModules, List.map_map, hforget, ← List.map_map, numberedItems,
    List.zipIdx_map_fst, List.map_flatMap, List.flatMap_def, List.flatMap_def]
  refine congrArg List.flatten (List.map_congr_left fun t ht => ?_)
  rw [items_self hdistinct ht, List.map_map]
  exact List.map_congr_left fun m _ => by simp

/-- Methods of one type with one signature have one body if and only if there is no conflict. -/
theorem only_duplicates_iff :
    (∀ e ∈ (matchModules (Index.ofModule x) (Index.ofModule x)).2.entries,
        e.kind = .methodDuplicate)
      ↔ ∀ t ∈ (Index.ofModule x).types, ∀ m ∈ t.type.methods, ∀ n ∈ t.type.methods,
        m.signature = n.signature → m.sameBody n = true := by
  have hkind : ∀ (t : IndexedType) (first m : Member) (id : Nat),
      (LedgerEntry.ofDifference id (Item.method t (some first) m).difference).kind
          = .methodDuplicate ↔ first.method.sameBody m.method = true := by
    intro t first m id
    simp only [LedgerEntry.ofDifference, Item.difference]
    split <;> simp_all
  constructor
  · intro h t ht _ hmethod _ hmethod' hsame
    obtain ⟨m, hm, rfl⟩ := List.mem_map.1 hmethod
    obtain ⟨n, hn, rfl⟩ := List.mem_map.1 hmethod'
    -- Both have the body of the earliest method with their signature.
    have hearliest : ∀ k ∈ t.type.members, ∀ first, t.type.member? k.signature = some first →
        first.method.core = k.method.core := by
      intro k hk first hfirst
      obtain ⟨id, hentry⟩ := exists_entry_of_mem_members hdistinct ht hk hfirst
      exact eq_of_beq ((hkind t first k id).1 (h _ hentry))
    obtain ⟨first, hfirst⟩ := Option.isSome_iff_exists.1 (TypeDecl.isSome_member?_of_mem hm)
    have hcore := hearliest n hn first (by rw [← hfirst]; exact congrArg _ hsame.symm)
    exact beq_iff_eq.2 ((hearliest m hm first hfirst).symm.trans hcore)
  · intro h e he
    obtain ⟨t, ht, m, hm, first, hfirst, hentry⟩ := exists_methods_of_mem_ledger hdistinct he
    have hmem := List.mem_of_find?_eq_some hfirst
    have hsignature := (TypeDecl.getElem?_of_member? hfirst).2
    rw [hentry]
    exact (hkind t first m e.id).2
      (h t ht _ (List.mem_map_of_mem hmem) _ (List.mem_map_of_mem hm) hsignature)

/-! ### What the merged module has

The copies always come last, so what is to be seen is which methods stay before them. -/

/-- The methods of a merged type are those that stay and then the copies of all. -/
theorem methods_merge_self (tag : String) {t : IndexedType} (ht : t ∈ (Index.ofModule x).types) :
    ((mergeEdit tag none x x t.qualified).applyTo t.type).methods
      = t.type.keptMethods (mergeEdit tag none x x t.qualified) ++ t.type.methods := by
  rw [TypeDecl.methods_applyTo, appended_self hdistinct tag ht]

/-- What is alone with its signature does not stay beside its copy. -/
theorem not_mem_keptMethods (tag : String) {t : IndexedType} (ht : t ∈ (Index.ofModule x).types)
    {m : Method} (h : t.type.methods.countP (·.signature = m.signature) ≤ 1) :
    m ∉ t.type.keptMethods (mergeEdit tag none x x t.qualified) := by
  intro hkept
  obtain ⟨n, hn, rfl, hstays⟩ := TypeDecl.exists_member_of_mem_keptMethods hkept
  exact hstays (fate?_of_alone hdistinct tag ht hn (TypeDecl.alone_of_countP hn h))

end

/-- **A module brings nothing new to itself.** If no two types have one name, its methods are what
the ledger lists, each once and as a duplicate or a conflict. There is no conflict if and only if
methods of one type with one signature have one body. The merged module has every type where it
was, with all its methods; a method that is alone with its signature comes out once, and with
signatures that are all different the methods are those that were. -/
theorem merge_self (tag : String) {x : SourceModule}
    (hdistinct : ((Index.ofModule x).types.map IndexedType.qualified).Nodup) :
    let merged := merge tag none x x
    merged.ledger.entries.map (fun e => (e.location, e.signature))
        = (Index.ofModule x).types.flatMap
          (fun t => t.type.members.map fun m => (t.qualified, some m.signature))
      ∧ (∀ e ∈ merged.ledger.entries, e.kind = .methodDuplicate ∨ e.kind = .methodConflict)
      ∧ ((∀ e ∈ merged.ledger.entries, e.kind = .methodDuplicate)
        ↔ ∀ t ∈ (Index.ofModule x).types, ∀ m ∈ t.type.methods, ∀ n ∈ t.type.methods,
          m.signature = n.signature → m.sameBody n = true)
      ∧ ∀ place t, x.Has place t → ∃ u, merged.result.typeAt? place = some u
        ∧ u.qualified = t.qualified
        ∧ t.type.methods <:+ u.type.methods
        ∧ (∀ signature, t.type.methods.countP (·.signature = signature) ≤ 1 →
          u.type.methods.filter (·.signature = signature)
            = t.type.methods.filter (·.signature = signature))
        ∧ ((t.type.methods.map Method.signature).Nodup → u.type.methods = t.type.methods) := by
  intro merged
  refine ⟨ledger_self hdistinct, fun e he => ?_, only_duplicates_iff hdistinct,
    fun place t hplace => ?_⟩
  · obtain ⟨t, -, m, -, first, -, hentry⟩ := exists_methods_of_mem_ledger hdistinct he
    rw [hentry, LedgerEntry.ofDifference, Item.difference]
    simp only
    split
    · exact .inl rfl
    · exact .inr rfl
  · have hplaced := mem_placedTypes_iff.2 hplace
    have ht := mem_types_of_placed hplaced
    have hat := SourceModule.typeAt?_of_mem (mem_placedTypes_merge_of_firstOf? tag none x x
      (SourceModule.firstOf?_of_mem hdistinct hplaced))
    have hmethods := methods_merge_self hdistinct tag ht
    refine ⟨_, hat, rfl, ?_, fun signature halone => ?_, fun hnodup => ?_⟩
    · exact ⟨_, hmethods.symm⟩
    · refine (congrArg _ hmethods).trans ?_
      rw [List.filter_append, List.filter_eq_nil_iff.2, List.nil_append]
      intro m hm hsignature
      obtain rfl : m.signature = signature := of_decide_eq_true hsignature
      exact not_mem_keptMethods hdistinct tag ht halone hm
    · have hnone : t.type.keptMethods (mergeEdit tag none x x t.qualified) = [] := by
        refine List.eq_nil_iff_forall_not_mem.2 fun m hm => ?_
        obtain ⟨n, hn, rfl, -⟩ := TypeDecl.exists_member_of_mem_keptMethods hm
        refine not_mem_keptMethods hdistinct tag ht ?_ hm
        rw [List.countP_eq_length_filter, filter_of_nodup hnodup (List.mem_map_of_mem hn)]
        exact Nat.le_refl 1
      exact hmethods.trans (by rw [hnone, List.nil_append])

/-- A class with a plain method and a generic one, which have one signature. -/
def sampleOverloads : SourceModule :=
  sampleClass "T"
    [⟨"\n", [], .method ⟨"Get", "()", "\x7b return 1; \x7d", "int Get() \x7b return 1; \x7d"⟩⟩,
      ⟨"\n", [], .method ⟨"Get", "()", "\x7b return default; \x7d",
        "U Get<U>() \x7b return default; \x7d"⟩⟩]

theorem merge_self_sample :
    let x := sampleOverloads
    let merged := merge "merge" none x x
    ((Index.ofModule x).types.map IndexedType.qualified).Nodup
      ∧ (∀ e ∈ merged.ledger.entries, e.kind = .methodDuplicate ∨ e.kind = .methodConflict)
      ∧ ∀ place t, x.Has place t → ∃ u, merged.result.typeAt? place = some u
        ∧ u.qualified = t.qualified
        ∧ t.type.methods <:+ u.type.methods
        ∧ (∀ signature, t.type.methods.countP (·.signature = signature) ≤ 1 →
          u.type.methods.filter (·.signature = signature)
            = t.type.methods.filter (·.signature = signature))
        ∧ ((t.type.methods.map Method.signature).Nodup → u.type.methods = t.type.methods) := by
  intro x merged
  have hdistinct : ((Index.ofModule x).types.map IndexedType.qualified).Nodup := by
    decide +kernel
  obtain ⟨-, hkinds, -, htypes⟩ := merge_self "merge" hdistinct
  exact ⟨hdistinct, hkinds, htypes⟩

/-- With two methods of one signature a module is in conflict with itself, and the merged type has
both of them twice. -/
theorem merge_self_overloads :
    let x := sampleOverloads
    let merged := merge "merge" none x x
    ((Index.ofModule x).types.map IndexedType.qualified).Nodup
      ∧ (¬ ∀ e ∈ merged.ledger.entries, e.kind = .methodDuplicate)
      ∧ ¬ ∀ t ∈ (Index.ofModule x).types, ∀ u ∈ (Index.ofModule merged.result).types,
        u.qualified = t.qualified →
          ∀ m ∈ t.type.methods, u.type.methods.count m = t.type.methods.count m := by
  decide +kernel

end ModuleMerge
