import ModuleMerge.Proofs.AddedNames
import ModuleMerge.Proofs.Completeness
import ModuleMerge.Proofs.Frame
import ModuleMerge.Proofs.PlainMerge

/-!
# Merging converges

After a merge the second input has nothing left to add: matched against the merged module, every
type and every method of it is found. What makes this work is that look-ups go to the first of a
name. A new type never stands in the way of a type that the first input has, since it has another
name, and of several methods with one signature some method always stays.

The merged module's index would have to be known for this, with new types in the middle of the old
ones and with the members of edited types moved about. That is avoided by asking one question at a
time. A look-up is the first answer to a question about types, and the questions that are needed
here are such that no new type is an answer to them. Then it does not matter where the new types
stand: what is left when the list is filtered by the question is the same with them and without.

For a type that the first input has, the question is whether a type has its name. No new type does,
since the merge puts in only types that the first input lacks. For a type that is new it is whether
a type has its name and is another one. Neither the first input nor the second has such a type, so
whatever the look-up finds is the type itself.

Members are simpler, since a body is changed by what becomes of each method. A method is dropped
only for one of the second input with its signature, and that one is appended.

* `Unseen` says that a question about types does not see the types that are put at a path, and
  `filter_types_compose` that then the merged module answers it as the edited first input does.
* `get?_merge_of_get?` and `get?_merge_of_added` say what look-ups in the merged module find.
* `merge_converges` is the main result.
-/

set_option autoImplicit false

namespace ModuleMerge

/-! ## Questions that do not see what is new

A question is a predicate on indexed types, and it may ask for their paths, so it has to be said at
which path the new types come to stand. In a module that keeps its paths this is the one that they
were meant for. -/

/-- The types of the second part stand under the path that the first part leaves. -/
theorem typesUnder_append (path : String) (xs ys : List Entry) :
    typesUnder path (xs ++ ys) = typesUnder path xs ++ typesUnder (pathAfterRow path xs) ys := by
  induction xs generalizing path with
  | nil => rfl
  | cons e rest ih => simp [typesUnder, ih, pathAfterRow]

/-- The entries are types, and the question has the answer no for them at a path. -/
def Unseen (p : IndexedType → Bool) (path : String) (run : List Entry) : Prop :=
  ∀ e ∈ run, ∃ t, e.decl = .type t ∧ p ⟨path, e.leading, e.annotations, t⟩ = false

section

variable {p : IndexedType → Bool}

/-- Entries that are not seen give no answers. -/
theorem filter_typesUnder_of_unseen {path : String} {run : List Entry} (h : Unseen p path run) :
    (typesUnder path run).filter p = [] := by
  induction run with
  | nil => rfl
  | cons e rest ih =>
    obtain ⟨leading, notes, decl⟩ := e
    obtain ⟨⟨t, rfl, hp⟩, hrest⟩ := List.forall_mem_cons.1 h
    rw [typesUnder, Entry.types, List.singleton_append, List.filter_cons_of_neg (by simp [hp])]
    exact ih hrest

theorem mem_of_mem_leaves {form : ScopeForm} {path : String} {groups : InsertionGroups}
    {group : String × List Entry} (h : group ∈ form.leaves path groups) : group ∈ groups := by
  cases form with
  | file => exact h
  | block => exact (List.mem_filter.1 h).1

/-- A row answers a question after insertions as it did before, if the question does not see what
any of its block namespaces may get. By induction on the row, with the groups that are left at each
point; all of them are groups of the table at the start. -/
theorem filter_typesUnder_insertEntries (path : String) (es : List Entry)
    {groups : InsertionGroups} (hkeyed : Keyed groups)
    (h : ∀ c ∈ closingsUnder path es, ∀ run, (c.1, run) ∈ groups → Unseen p c.2 run) :
    (typesUnder path (insertEntries path groups es).1).filter p
      = (typesUnder path es).filter p := by
  induction es using row_induction generalizing path groups with
  | nil => rfl
  | scope leading notes name form header entries trailing footer rest ihBody ihRest =>
    have hleft := hkeyed.left_insertEntries (qualify path name) entries
    have hsub : ∀ group ∈ (insertEntries (qualify path name) groups entries).2,
        group ∈ groups := by
      rw [left_insertEntries _ _ hkeyed]
      exact fun group => mem_of_mem_withoutAll
    have hbody := ihBody (qualify path name) hkeyed fun c hc =>
      h c (List.mem_append_left _ (List.mem_append_left _ hc))
    have hrest := ihRest (form.pathAfter path (qualify path name))
      (hleft.leaves form (qualify path name)) fun c hc run hrun =>
        h c (List.mem_append_right _ hc) run (hsub _ (mem_of_mem_leaves hrun))
    -- What the namespace takes itself stands under the path at the end of its body.
    have htaken : (typesUnder (pathAfterRow (qualify path name) entries)
        (form.takes (qualify path name)
          (insertEntries (qualify path name) groups entries).2)).filter p = [] := by
      cases form with
      | file => rfl
      | block =>
        refine filter_typesUnder_of_unseen fun e he => ?_
        rw [ScopeForm.takes] at he
        cases hrun : valueOf? (qualify path name)
            (insertEntries (qualify path name) groups entries).2 with
        | none => simp [hrun] at he
        | some run =>
          have hclosing : (qualify path name, pathAfterRow (qualify path name) entries)
              ∈ closingsUnder path (⟨leading, notes,
                .scope ⟨name, .block, header, ⟨entries, trailing⟩, footer⟩⟩ :: rest) :=
            List.mem_append_left _ (List.mem_append_right _ List.mem_cons_self)
          exact h _ hclosing run (hsub _ (mem_of_valueOf? hrun)) e (by simpa [hrun] using he)
    simp only [insertEntries, insertEntry, insertInto_eq _ _ _ hleft, typesUnder, Entry.types,
      Entry.pathAfter, typesUnder_append, pathAfterRow_insertEntries, List.filter_append, hbody,
      htaken, hrest, List.append_nil]
  | type leading notes t rest ih =>
    simp only [insertEntries, insertEntry, typesUnder, List.filter_append]
    exact congrArg _ (ih path hkeyed h)
  | method leading notes m rest ih => exact ih path hkeyed h
  | verbatim leading notes text rest ih => exact ih path hkeyed h

/-- The same for what is put at the end of a module. -/
theorem filter_typesUnder_endEntries (m : SourceModule) {groups : InsertionGroups}
    (h : ∀ g ∈ groups, Unseen p (m.endPath g.1) g.2) :
    (typesUnder (pathAfterRow "" m.body.entries) (groups.flatMap (endEntries m))).filter p
      = [] := by
  induction groups with
  | nil => rfl
  | cons g rest ih =>
    obtain ⟨hg, hrest⟩ := List.forall_mem_cons.1 h
    have htypes : ∀ e ∈ g.2, ∃ t, e.decl = .type t := fun e he => (hg e he).imp fun _ ht => ht.1
    rw [List.flatMap_cons, typesUnder_append, List.filter_append,
      pathAfterRow_endEntries m _ htypes, ih hrest, List.append_nil]
    rw [SourceModule.endPath] at hg
    rw [endEntries]
    split
    · rename_i hend
      rw [if_pos hend] at hg
      exact filter_typesUnder_of_unseen hg
    · rename_i hend
      rw [if_neg hend] at hg
      simpa [typesUnder, newNamespace, Entry.types] using filter_typesUnder_of_unseen hg

end

/-- **What is new is not seen.** A question that sees none of a plan's insertions has the answers
that it has after the edits alone. -/
theorem filter_types_compose {m : SourceModule} (hm : m.KeepsPaths) {plan : EditPlan}
    (hkeyed : Keyed plan.edits) {p : IndexedType → Bool}
    (h : ∀ i ∈ plan.insertions, Unseen p i.path [i.entry]) :
    (Index.ofModule (m.compose plan)).types.filter p
      = ((editPlaced plan.edits m.placedTypes).map Prod.snd).filter p := by
  have hgroups : ∀ g ∈ groupInsertions plan.insertions, Unseen p g.1 g.2 := by
    rintro ⟨path, run⟩ hg e he
    obtain ⟨i, hi, rfl, rfl⟩ := mem_insertions_of_group hg he
    exact h i hi i.entry List.mem_cons_self
  have hedited : typesUnder "" (editEntries "" plan.edits m.body.entries).1
      = (editPlaced plan.edits m.placedTypes).map Prod.snd := by
    rw [← map_snd_placedUnder "" 0, (placedUnder_editEntries "" 0 m.body.entries hkeyed).1]
    rfl
  -- In three parts: what namespaces take, what goes to the end, and what is edited.
  have hinserted := filter_typesUnder_insertEntries (p := p) ""
    (editEntries "" plan.edits m.body.entries).1 (keyed_groupInsertions plan.insertions)
    (by
      intro c hc run hrun
      rw [closingsUnder_editEntries] at hc
      rw [hm.closings c hc]
      exact hgroups _ hrun)
  have hending : ∀ g ∈ (insertEntries "" (groupInsertions plan.insertions)
      (editEntries "" plan.edits m.body.entries).1).2, Unseen p (m.endPath g.1) g.2 := by
    intro g hg
    rw [left_insertEntries _ _ (keyed_groupInsertions _)] at hg
    rw [hm.ending]
    exact hgroups g (mem_of_mem_withoutAll hg)
  rw [Index.ofModule, SourceModule.compose, typesUnder_append, pathAfterRow_insertEntries,
    pathAfterRow_editEntries, List.filter_append, hinserted, filter_typesUnder_endEntries m hending,
    List.append_nil, hedited]

/-! ## Look-ups in the merged module -/

section

variable (tag : String) (resolutions : Option Resolutions) {first second : SourceModule}

/-- The merged module answers a question as the edited first input does, if the answer is no for
every type that only the second input has, whatever notes are on it. -/
theorem filter_types_merge (hfirst : first.KeepsPaths) (p : IndexedType → Bool)
    (h : ∀ t ∈ (Index.ofModule second).types, (Index.ofModule first).get? t.qualified = none →
      ∀ notes, p { t with annotations := notes } = false) :
    (Index.ofModule (merge tag resolutions first second).result).types.filter p
      = ((editPlaced (merge tag resolutions first second).edits.edits first.placedTypes).map
          Prod.snd).filter p := by
  refine filter_types_compose hfirst (Resolver.keyed_edits_resolve ⟨tag, resolutions⟩ _ _) ?_
  intro i hi e he
  obtain ⟨t, ht, hnone, id, rfl⟩ := Resolver.exists_type_of_mem_insertions ⟨tag, resolutions⟩ hi
  obtain rfl := List.mem_singleton.1 he
  exact ⟨t.type, rfl, h t ht hnone _⟩

/-- A type of the first input is found in the merged module as its edit leaves it. Where the first
input has several types of the name, it is the first of them, and only that one is edited. -/
theorem get?_merge_of_get? (hfirst : first.KeepsPaths) {name : String} {ours : IndexedType}
    (hours : (Index.ofModule first).get? name = some ours) :
    (Index.ofModule (merge tag resolutions first second).result).get? name
      = some (ours.edited (mergeEdit tag resolutions first second name)) := by
  have hunseen : ∀ t ∈ (Index.ofModule second).types,
      (Index.ofModule first).get? t.qualified = none →
      ∀ notes, decide (({ t with annotations := notes } : IndexedType).qualified = name)
        = false := by
    intro t _ hnone notes
    refine decide_eq_false fun hname => ?_
    have hsame : t.qualified = name := hname
    rw [hsame, hours] at hnone
    contradiction
  have hfilter := filter_types_merge tag resolutions hfirst (·.qualified = name) hunseen
  have hedited := find?_editPlaced (merge tag resolutions first second).edits.edits
    first.placedTypes name
  rw [get?_ofModule] at hours
  obtain ⟨x, hx, rfl⟩ := Option.map_eq_some_iff.1 hours
  rw [← SourceModule.firstOf?, hx] at hedited
  rw [Index.get?, ← List.head?_filter, hfilter, List.head?_filter, List.find?_map]
  exact congrArg (Option.map Prod.snd) hedited

/-- A type that only the second input has is found in the merged module, if no other type of the
second input has its name. -/
theorem get?_merge_of_added (hfirst : first.KeepsPaths)
    (hdistinct : ((Index.ofModule second).types.map IndexedType.qualified).Nodup)
    {theirs : IndexedType} (htheirs : theirs ∈ (Index.ofModule second).types)
    (hnone : (Index.ofModule first).get? theirs.qualified = none) :
    ∃ found, (Index.ofModule (merge tag resolutions first second).result).get? theirs.qualified
        = some found ∧ found.type = theirs.type := by
  classical
  obtain ⟨id, hitem⟩ := exists_id_of_added htheirs hnone
  obtain ⟨place, hplaced⟩ := exists_placed_merge_of_added tag resolutions first second hitem
  have hmem := mem_types_of_placed hplaced
  have hpath : first.landingPath theirs.path = theirs.path := hfirst.landingPath _
  -- The merged module has some type of the name.
  have hsome : ((Index.ofModule (merge tag resolutions first second).result).get?
      theirs.qualified).isSome := by
    rw [Index.get?, List.find?_isSome]
    refine ⟨_, hmem, decide_eq_true ?_⟩
    rw [IndexedType.qualified, hpath]
    rfl
  obtain ⟨found, hfound⟩ := Option.isSome_iff_exists.1 hsome
  refine ⟨found, hfound, Classical.byContradiction fun hother => ?_⟩
  -- Neither does the first input have a type of the name, nor the second another one.
  have hunseen : ∀ t ∈ (Index.ofModule second).types,
      (Index.ofModule first).get? t.qualified = none → ∀ notes,
      decide (({ t with annotations := notes } : IndexedType).qualified = theirs.qualified
        ∧ ({ t with annotations := notes } : IndexedType).type ≠ theirs.type) = false := by
    intro t ht _ notes
    refine decide_eq_false fun hother => hother.2 ?_
    have hsame : t.qualified = theirs.qualified := hother.1
    have hget := Index.get?_of_mem hdistinct ht
    rw [hsame, Index.get?_of_mem hdistinct htheirs] at hget
    rw [Option.some.inj hget]
  have hedited : ∀ x ∈ editPlaced (merge tag resolutions first second).edits.edits
      first.placedTypes, x.2.qualified ≠ theirs.qualified := by
    rw [get?_ofModule, Option.map_eq_none_iff, SourceModule.firstOf?] at hnone
    have hfind := find?_editPlaced (merge tag resolutions first second).edits.edits
      first.placedTypes theirs.qualified
    rw [hnone] at hfind
    simpa using hfind
  have hname : found.qualified = theirs.qualified := by simpa using List.find?_some hfound
  have hseen : found ∈ (Index.ofModule (merge tag resolutions first second).result).types.filter
      fun t => t.qualified = theirs.qualified ∧ t.type ≠ theirs.type :=
    List.mem_filter.2 ⟨List.mem_of_find?_eq_some hfound, decide_eq_true ⟨hname, hother⟩⟩
  rw [filter_types_merge tag resolutions hfirst _ hunseen] at hseen
  obtain ⟨x, hx, rfl⟩ := List.mem_map.1 (List.mem_filter.1 hseen).1
  exact hedited x hx hname

/-! ## Methods of merged types

The question is only whether some method has the signature, and not which. So it does no harm that
the second input may have two methods of one signature with different decisions for them. -/

/-- Every signature that the second input has for a type of both is in the merged type. A method
that leaves does so for another of its signature, so some method stays. -/
theorem exists_member_of_signature {name : String} {ours : IndexedType}
    (hours : (Index.ofModule first).get? name = some ours) {m : Member}
    (hm : m ∈ (Index.ofModule second).methodsOf name) :
    ∃ n ∈ ((mergeEdit tag resolutions first second name).applyTo ours.type).members,
      n.signature = m.signature := by
  let r : Resolver := ⟨tag, resolutions⟩
  have hpartner : ∀ c ∈ contributions (Index.ofModule first) (Index.ofModule second) name,
      c.partner = ours.type.member? c.second.signature :=
    fun c hc => partner_of_mem_contributions hours hc
  have htaken : ∀ c ∈ contributions (Index.ofModule first) (Index.ofModule second) name, ∀ p,
      r.provenance? c = some p →
      ∃ n ∈ ((mergeEdit tag resolutions first second name).applyTo ours.type).members,
        n.signature = c.second.signature := by
    intro c hc p hp
    obtain ⟨n, hn, hmethod⟩ := r.exists_member_of_taken _ _ _ ours.type hc hp
    exact ⟨n, hn, congrArg Method.signature hmethod⟩
  rw [← map_second_contributions hours] at hm
  obtain ⟨c, hc, rfl⟩ := List.mem_map.1 hm
  -- Either the method is taken, or the user has kept the first input's own; then that one stays
  -- unless another method takes its place.
  rcases r.taken_or_explicit c with ⟨p, hp⟩ | ⟨partner, hfound, -⟩
  · exact htaken c hc p hp
  · have hmember := (hpartner c hc).symm.trans hfound
    have hsignature := (TypeDecl.getElem?_of_member? hmember).2
    rw [← hsignature]
    rcases r.kept_or_replaced hpartner (List.mem_of_find?_eq_some hmember) with
      hkept | ⟨c', hc', hpartner', hsame, hreplaces⟩
    · obtain ⟨n, hn, hmethod⟩ :=
        r.exists_member_of_kept _ _ _ ours.type (List.mem_of_find?_eq_some hmember) hkept
      exact ⟨n, hn, congrArg Method.signature hmethod⟩
    · -- The method that takes its place has the signature too.
      rw [← hsame]
      rcases hreplaces with hd | hd
      · exact htaken c' hc' .chosenSecond (by simp [Resolver.provenance?, hpartner', hd,
          Disposition.provenance?])
      · exact htaken c' hc' .duplicateKeptFromSecond (by simp [Resolver.provenance?, hpartner', hd,
          Disposition.provenance?])

end

/-! ## The second merge -/

/-- **Merging converges**, whatever the user decides and however often the second input has one
signature: matched once more against the merged module, the second input adds nothing. Each of its
types is found there under its name, and each signature of its methods in the type found. -/
theorem merge_converges (tag : String) (resolutions : Option Resolutions)
    {first second : SourceModule} (hlanguage : first.language = .csharp)
    (hblocks : onlyBlocksIn first.body.entries = true)
    (hdistinct : ((Index.ofModule second).types.map IndexedType.qualified).Nodup) :
    let merged := Index.ofModule (merge tag resolutions first second).result
    (∀ e ∈ (matchModules merged (Index.ofModule second)).2.entries,
        e.kind ≠ .typeAdded ∧ e.kind ≠ .methodAdded)
      ∧ ∀ t ∈ (Index.ofModule second).types, ∃ found, merged.get? t.qualified = some found
        ∧ ∀ m ∈ t.type.members, (found.type.member? m.signature).isSome := by
  intro merged
  have hfirst : first.KeepsPaths := keepsPaths_of_onlyBlocks (by rw [hlanguage]; rfl) hblocks
  have hfound : ∀ t ∈ (Index.ofModule second).types, ∃ found, merged.get? t.qualified = some found
      ∧ ∀ m ∈ t.type.members, (found.type.member? m.signature).isSome := by
    intro t ht
    cases hours : (Index.ofModule first).get? t.qualified with
    | some ours =>
      refine ⟨_, get?_merge_of_get? tag resolutions hfirst hours, fun m hm => ?_⟩
      have hmethod : m ∈ (Index.ofModule second).methodsOf t.qualified :=
        List.mem_flatMap.2 ⟨t, List.mem_filter.2 ⟨ht, by simp⟩, hm⟩
      obtain ⟨n, hn, hsignature⟩ := exists_member_of_signature tag resolutions hours hmethod
      exact hsignature ▸ TypeDecl.isSome_member?_of_mem hn
    | none =>
      obtain ⟨found, hget, htype⟩ := get?_merge_of_added tag resolutions hfirst hdistinct ht hours
      exact ⟨found, hget, fun m hm => TypeDecl.isSome_member?_of_mem (htype ▸ hm)⟩
  -- An entry of the second ledger that adds something would be an item that was not found.
  refine ⟨fun e he => ?_, hfound⟩
  obtain ⟨item, hitem, hentry⟩ := exists_item_of_mem_ledger he
  rw [hentry]
  cases item with
  | type t =>
    obtain ⟨ht, hnone⟩ := mem_numberedItems_type hitem
    obtain ⟨found, hget, -⟩ := hfound t ht
    rw [hnone] at hget
    contradiction
  | method t partner m =>
    obtain ⟨ht, hm, ours, hours, hpartner⟩ := mem_numberedItems_method hitem
    obtain ⟨found, hget, hmembers⟩ := hfound t ht
    obtain rfl := Option.some.inj (hours.symm.trans hget)
    refine ⟨Item.kind_difference_method_ne t partner m, fun hkind => ?_⟩
    have hchoice := Item.isChoosable_difference_method t partner m
    rw [hpartner, hmembers m hm, ← hpartner] at hchoice
    have hadded : (Item.method t partner m).difference.kind = .methodAdded := hkind
    rw [hadded] at hchoice
    contradiction

/-- The second input has one method of a type twice, against the user's wish for one and for the
other, and a type for a namespace that the first input does not have. -/
theorem merge_converges_sample :
    let first := sampleGlobal [sampleNamespace "A" [sampleBody "T" [sampleMethod "F" "one"]]]
    let second := sampleGlobal
      [sampleNamespace "A" [sampleBody "T" [sampleMethod "F" "two", sampleMethod "F" "three"]],
        sampleNamespace "B" [sampleBody "U" [sampleMethod "G" ""]]]
    let choices : Resolutions := ⟨[(1, .keepSecond), (2, .keepFirst)], by decide⟩
    let merged := Index.ofModule (merge "merge" (some choices) first second).result
    first.language = .csharp ∧ onlyBlocksIn first.body.entries = true
      ∧ ((Index.ofModule second).types.map IndexedType.qualified).Nodup
      ∧ (∀ e ∈ (matchModules merged (Index.ofModule second)).2.entries,
          e.kind ≠ .typeAdded ∧ e.kind ≠ .methodAdded)
      ∧ ∀ t ∈ (Index.ofModule second).types, ∃ found, merged.get? t.qualified = some found
        ∧ ∀ m ∈ t.type.members, (found.type.member? m.signature).isSome :=
  ⟨rfl, by decide +kernel, by decide +kernel,
    merge_converges "merge" _ rfl (by decide +kernel) (by decide +kernel)⟩

end ModuleMerge
