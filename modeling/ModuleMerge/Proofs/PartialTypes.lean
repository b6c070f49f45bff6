import ModuleMerge.Proofs.Symmetry

/-!
# Types that are declared several times

A name may stand for several declarations in one file. In the second input the methods of all of
them are taken together; in the first input only the first one is looked at. So a method may be
added to the first declaration of a type though a later one has it.

The condition under which this never happens is about the first input alone. It can not be left to
the second input, which may be anything: the first input merged with itself already brings every
method that is missed. So the condition that look-ups find whatever is declared is not only enough
but needed (`findsMethod_iff`), and one declaration for each name is a simple way to have it.

* `Index.FindsMethod` holds the two ways of looking for a method against each other.
* `addsMethod_iff_declares` says which methods are added, whatever the names of the inputs are.
* `exists_noted_of_added` says where an added method comes to stand.
* `added_beside_declarations` is the main result. It says as well for which first inputs no method
  is ever added beside a declaration that has it.
-/

set_option autoImplicit false

namespace ModuleMerge

/-! ## Two ways of looking for a method -/

/-- Whether a look-up finds every method of a signature that a type with the name has: no later
declaration of the type has one if the first one has none. -/
def Index.FindsMethod (index : Index) (location signature : String) : Prop :=
  index.Declares (.method location signature) → (index.method? location signature).isSome

section

variable {a b : Index} {location signature : String}

/-- A look-up goes to the first declaration of a type, and to no other. -/
theorem Index.method?_eq_none_iff {t : IndexedType} (h : a.get? location = some t) :
    a.method? location signature = none ↔ t.type.member? signature = none := by
  rw [method?_of_get? h, Option.map_eq_none_iff]

/-- A look-up finds the methods of a type that is declared once. -/
theorem Index.findsMethod_of_single (h : (a.types.filter (·.qualified = location)).length ≤ 1)
    (signature : String) : a.FindsMethod location signature := by
  rintro ⟨t, ht, hname, m, hm, rfl⟩
  have hmem : t ∈ a.types.filter (·.qualified = location) := by simp [ht, hname]
  have hget : a.get? location = some t := by
    rw [get?, ← List.head?_filter]
    cases hfilter : a.types.filter (·.qualified = location) with
    | nil => simp [hfilter] at hmem
    | cons t' rest =>
      rw [hfilter, List.length_cons] at h
      obtain rfl := List.eq_nil_of_length_eq_zero (by omega : rest.length = 0)
      rw [hfilter, List.mem_singleton] at hmem
      rw [hmem, List.head?_cons]
  rw [method?_of_get? hget, Option.isSome_map]
  exact TypeDecl.isSome_member?_of_mem hm

/-- A method is noted as added if nothing was found for it. -/
theorem Item.kind_difference_method_eq_methodAdded_iff {theirs : IndexedType}
    {partner : Option Member} {m : Member} :
    (Item.method theirs partner m).difference.kind = .methodAdded ↔ partner = none := by
  cases partner with
  | none => exact iff_of_true rfl rfl
  | some first =>
    simp only [Item.difference, reduceCtorEq, iff_false]
    split
    · simp
    · simp

/-- An entry that adds a method is about a member of the second input in a type of both inputs, and
the look-up in the first input found nothing. -/
theorem exists_item_of_added {e : LedgerEntry} (he : e ∈ (matchModules a b).2.entries)
    (hkind : e.kind = .methodAdded) :
    ∃ theirs ∈ b.types, ∃ m ∈ theirs.type.members, ∃ ours,
      (Item.method theirs none m, e.id) ∈ numberedItems a b
        ∧ a.get? theirs.qualified = some ours ∧ ours.type.member? m.signature = none
        ∧ e.location = theirs.qualified ∧ e.signature = some m.signature := by
  obtain ⟨item, hitem, heq⟩ := exists_item_of_mem_ledger he
  cases item with
  | type theirs =>
    rw [heq] at hkind
    contradiction
  | method theirs partner m =>
    obtain ⟨htheirs, hm, ours, hours, hpartner⟩ := mem_numberedItems_method hitem
    have hnone : partner = none := by
      rw [heq] at hkind
      exact Item.kind_difference_method_eq_methodAdded_iff.1 hkind
    subst hnone
    refine ⟨theirs, htheirs, m, hm, ours, hitem, hours, hpartner.symm, ?_, ?_⟩
    · rw [heq]
      rfl
    · rw [heq]
      rfl

/-- **Which methods are added**: those of the second input's declarations of a type that the first
declaration of the type in the first input has not. -/
theorem addsMethod_iff_declares :
    (matchModules a b).2.AddsMethod location signature
      ↔ b.Declares (.method location signature) ∧ a.contains location = true
        ∧ a.method? location signature = none := by
  constructor
  · rintro ⟨e, he, hkind, rfl, hsignature⟩
    obtain ⟨theirs, htheirs, m, hm, ours, -, hours, hnone, hlocation, hsame⟩ :=
      exists_item_of_added he hkind
    rw [hsignature, Option.some.injEq] at hsame
    rw [hlocation, hsame]
    refine ⟨⟨theirs, htheirs, rfl, m, hm, rfl⟩, ?_, (Index.method?_eq_none_iff hours).2 hnone⟩
    rw [Index.contains_eq_isSome_get?, hours]
    rfl
  · rintro ⟨⟨theirs, htheirs, rfl, m, hm, rfl⟩, hcontains, hnone⟩
    rw [Index.contains_eq_isSome_get?, Option.isSome_iff_exists] at hcontains
    obtain ⟨ours, hours⟩ := hcontains
    have hmember := (Index.method?_eq_none_iff hours).1 hnone
    have hitem : Item.method theirs none m ∈ theirs.items a := by
      rw [IndexedType.items, hours]
      exact List.mem_map.2 ⟨m, hm, by rw [hmember]⟩
    obtain ⟨id, hid⟩ := exists_id_of_item htheirs hitem
    exact ⟨_, mem_ledger_of_mem_numberedItems hid, rfl, rfl, rfl⟩

/-- A first input that misses one of its own methods has it added by a merge with itself. -/
theorem findsMethod_iff (first : SourceModule) (location signature : String) :
    (∀ second, (matchModules (Index.ofModule first) (Index.ofModule second)).2.AddsMethod
          location signature → ¬ (Index.ofModule first).Declares (.method location signature))
      ↔ (Index.ofModule first).FindsMethod location signature := by
  constructor
  · -- A declared method that is not found is added when the input meets itself.
    intro h hdeclares
    rw [Option.isSome_iff_ne_none]
    intro hnone
    have hcontains : (Index.ofModule first).contains location = true := by
      obtain ⟨t, ht, hname, -⟩ := hdeclares
      exact Index.contains_of_declares ⟨t, ht, hname⟩
    exact h first (addsMethod_iff_declares.2 ⟨hdeclares, hcontains, hnone⟩) hdeclares
  · intro h second hadds hdeclares
    have hsome := h hdeclares
    rw [(addsMethod_iff_declares.1 hadds).2.2] at hsome
    contradiction

/-- A look-up in an input finds no method: its first declaration of the type has none. -/
theorem method?_ofModule_eq_none_iff (first : SourceModule) (location signature : String) :
    (Index.ofModule first).contains location = true
        ∧ (Index.ofModule first).method? location signature = none
      ↔ ∃ place ours, first.firstOf? location = some (place, ours)
        ∧ ∀ m ∈ ours.type.members, m.signature ≠ signature := by
  rw [Index.contains_eq_isSome_get?, get?_ofModule, Option.isSome_map, Option.isSome_iff_exists]
  have hlookup : ∀ {place ours}, first.firstOf? location = some (place, ours) →
      ((Index.ofModule first).method? location signature = none
        ↔ ∀ m ∈ ours.type.members, m.signature ≠ signature) := by
    intro place ours h
    rw [Index.method?_eq_none_iff (t := ours) (by rw [get?_ofModule, h]; rfl),
      TypeDecl.member?, List.find?_eq_none]
    simp
  constructor
  · rintro ⟨⟨⟨place, ours⟩, hfirst⟩, hnone⟩
    exact ⟨place, ours, hfirst, (hlookup hfirst).1 hnone⟩
  · rintro ⟨place, ours, hfirst, hnone⟩
    exact ⟨⟨_, hfirst⟩, (hlookup hfirst).2 hnone⟩

end

/-- A method that is added comes to stand in the first declaration of its type, with a note. -/
theorem exists_noted_of_added (tag : String) (resolutions : Option Resolutions)
    (first second : SourceModule) {e : LedgerEntry}
    (he : e ∈ (merge tag resolutions first second).ledger.entries) (hkind : e.kind = .methodAdded) :
    ∃ place ours, first.firstOf? e.location = some (place, ours)
      ∧ ∃ t, (merge tag resolutions first second).result.typeAt? place = some t
        ∧ t.qualified = e.location
        ∧ ∃ theirs ∈ (Index.ofModule second).types, theirs.qualified = e.location
          ∧ ∃ m ∈ theirs.type.members, e.signature = some m.signature
            ∧ (m.entry.annotated (note tag e.id .addedFromSecond)).noted
              ∈ t.type.body.entries.map Entry.noted := by
  obtain ⟨theirs, htheirs, m, hm, t, hitem, hget, -, hlocation, hsignature⟩ :=
    exists_item_of_added he hkind
  obtain ⟨⟨place, ours⟩, hfirst, rfl⟩ :
      ∃ y, first.firstOf? theirs.qualified = some y ∧ y.2 = t := by
    rwa [get?_ofModule, Option.map_eq_some_iff] at hget
  have hname : ours.qualified = theirs.qualified := by simpa using List.find?_some hfirst
  have hcontributed : (⟨e.id, none, m⟩ : Contribution)
      ∈ contributions (Index.ofModule first) (Index.ofModule second) theirs.qualified :=
    List.mem_filterMap.2 ⟨_, hitem, by simp [contributionTo]⟩
  -- Every declaration of the second input contributes to the one type that the look-up finds.
  rw [hlocation]
  refine ⟨place, ours, hfirst, _, SourceModule.typeAt?_of_mem
    (mem_placedTypes_merge_of_firstOf? tag resolutions first second hfirst), hname, theirs,
    htheirs, rfl, m, hm, hsignature, ?_⟩
  exact Resolver.noted_mem_applyTo ⟨tag, resolutions⟩ ours.type hcontributed rfl

/-- **A second definition beside a partial one.** A method is added exactly if the second input
declares it in a type that the first input has, and the first declaration of the type there has no
method with its signature; it is appended to that declaration, with a note. So no declaration of
the type in the first input has the method, whatever the second input is, exactly if a later
declaration has one only where the first one has one too; and so it is where the type is declared
once. -/
theorem added_beside_declarations (first : SourceModule) (location signature : String) :
    (∀ tag resolutions second,
      ((merge tag resolutions first second).ledger.AddsMethod location signature
        ↔ (Index.ofModule second).Declares (.method location signature)
          ∧ ∃ place ours, first.firstOf? location = some (place, ours)
            ∧ ∀ m ∈ ours.type.members, m.signature ≠ signature)
      ∧ ∀ e ∈ (merge tag resolutions first second).ledger.entries, e.kind = .methodAdded →
        e.location = location → e.signature = some signature →
          ∃ place ours, first.firstOf? location = some (place, ours)
            ∧ ∃ t, (merge tag resolutions first second).result.typeAt? place = some t
              ∧ t.qualified = location
              ∧ ∃ theirs ∈ (Index.ofModule second).types, theirs.qualified = location
                ∧ ∃ m ∈ theirs.type.members, m.signature = signature
                  ∧ (m.entry.annotated (note tag e.id .addedFromSecond)).noted
                    ∈ t.type.body.entries.map Entry.noted)
      ∧ ((∀ tag resolutions second,
          (merge tag resolutions first second).ledger.AddsMethod location signature →
            ¬ (Index.ofModule first).Declares (.method location signature))
        ↔ (Index.ofModule first).FindsMethod location signature)
      ∧ (((Index.ofModule first).types.filter (·.qualified = location)).length ≤ 1 →
        (Index.ofModule first).FindsMethod location signature) := by
  refine ⟨fun tag resolutions second => ⟨?_, ?_⟩, ?_, fun h => Index.findsMethod_of_single h _⟩
  · rw [← method?_ofModule_eq_none_iff]
    exact addsMethod_iff_declares
  · rintro e he hkind rfl hsignature
    obtain ⟨place, ours, hfirst, t, ht, hname, theirs, htheirs, hlocation, m, hm, hsame, hnoted⟩ :=
      exists_noted_of_added tag resolutions first second he hkind
    rw [hsignature] at hsame
    exact ⟨place, ours, hfirst, t, ht, hname, theirs, htheirs, hlocation, m, hm,
      (Option.some.inj hsame).symm, hnoted⟩
  · -- the ledger of a merge depends neither on the tag nor on the decisions
    rw [← findsMethod_iff]
    exact ⟨fun h => h "" none, fun h _ _ => h⟩

/-- The first declaration of a type has no method; the second one has the method that the other
input brings. So it is added, and stands in both declarations afterwards. -/
theorem added_beside_later_declaration :
    let first := sampleGlobal [sampleBody "T" [], sampleBody "T" [sampleMethod "F" "one"]]
    let second := sampleGlobal [sampleBody "T" [sampleMethod "F" "one"]]
    (Index.ofModule first).Declares (.method "T" "F()")
      ∧ (merge "merge" none first second).ledger.AddsMethod "T" "F()"
      ∧ (Index.ofModule (merge "merge" none first second).result).types.map
          (fun t => (t.qualified, t.type.members.map Member.signature))
        = [("T", ["F()"]), ("T", ["F()"])] := by
  refine ⟨?_, ?_, ?_⟩
  · show ∃ t ∈ (Index.ofModule _).types, t.qualified = "T" ∧ ∃ m ∈ t.type.members, _
    decide +kernel
  · show ∃ e ∈ (merge _ _ _ _).ledger.entries, _
    decide +kernel
  · decide +kernel

end ModuleMerge
