import ModuleMerge.Proofs.Additions
import ModuleMerge.Proofs.Frame
import ModuleMerge.Proofs.Scopes

/-!
# Where new types go

Every type that a plan inserts is put in one place, together with the others for its namespace
path and in their order: at the end of the first block namespace with the path; if there is none,
at the end of the module, in a namespace made for the path unless the types need none there.

The places are described in the tree before the merge, since new types and namespaces are not to be
found by paths in a tree that has them already. To say that they are put there and nowhere else, it
takes two statements: what each namespace and the end of the module have afterwards, and that every
insertion can be taken out of the whole once, which leaves what the plan makes without insertions.

* `mem_scopes_changedRow` says what becomes of every namespace of a row.
* `Placement` is the description, and `placement_compose` says that every plan keeps to it.
-/

set_option autoImplicit false

namespace ModuleMerge

/-! ## Namespaces after changes -/

/-- A namespace after the changes below it. -/
def Scope.changed (c : Changes) : Scope → Scope
  | ⟨name, form, header, ⟨entries, trailing⟩, footer⟩ =>
    ⟨name, form, header, ⟨changedRow c 0 entries ++ form.gets (c.run? []), trailing⟩, footer⟩

@[simp] theorem pathAfter_changed (path : String) (c : Changes) (e : Entry) :
    (e.changed c).pathAfter path = e.pathAfter path := by
  obtain ⟨leading, notes, ⟨name, form, header, ⟨entries, trailing⟩, footer⟩ | t | m | text⟩ := e <;>
    rfl

/-- Every namespace stays where it is, and what becomes of it depends on what is below it. -/
theorem mem_scopes_changedRow {c : Changes} {path : String} {position : Nat} {es : List Entry}
    {place : Place} {s : IndexedScope} (h : (place, s) ∈ scopesUnder path position es) :
    (place, { s with scope := s.scope.changed (c.below place) })
      ∈ scopesUnder path position (changedRow c position es) := by
  induction es using row_induction generalizing c path position place s with
  | nil => simp [scopesUnder] at h
  | scope leading notes name form header entries trailing footer rest ihBody ihRest =>
    rw [changedRow, scopesUnder, pathAfter_changed]
    rcases List.mem_append.1 h with h | h
    · obtain ⟨y, hy, heq⟩ := List.mem_map.1 h
      obtain ⟨rfl, rfl⟩ := Prod.mk.inj heq
      refine List.mem_append_left _ (List.mem_map.2
        ⟨(y.1, ⟨y.2.path, y.2.scope.changed ((c.under position).below y.1)⟩), ?_, rfl⟩)
      rcases List.mem_cons.1 hy with rfl | hy
      · exact List.mem_cons_self
      · refine List.mem_cons_of_mem _ ?_
        rw [scopesUnder_append]
        exact List.mem_append_left _ (ihBody hy)
    · exact List.mem_append_right _ (ihRest h)
  | type leading notes t rest ih => exact ih h
  | method leading notes m rest ih => exact ih h
  | verbatim leading notes text rest ih => exact ih h

/-! ## Placement -/

/-- The paths for which a plan inserts types and a module has no block namespace, each once, in the
order in which they first appear. -/
def SourceModule.pathsAtEnd (m : SourceModule) (plan : EditPlan) : List String :=
  (plan.insertions.map Insertion.path).eraseDups.filter fun path => m.firstBlock? path = none

/-- What a module puts at its end for such a path: the types as they are if the path is empty or
the one of the module's first namespace in file form, or if there are no block namespaces in the
language; otherwise one new namespace with the types. -/
def SourceModule.runAtEnd (m : SourceModule) (plan : EditPlan) (path : String) : List Entry :=
  if path = "" ∨ fileScope? m = some path ∨ m.language.hasBlockNamespaces = false then
    plan.runFor path
  else [newNamespace m.lineBreak path (plan.runFor path)]

/-- Every insertion of a plan is put in its place, and nothing else is put there. -/
structure Placement (m : SourceModule) (plan : EditPlan) (result : SourceModule) : Prop where
  /-- The first block namespace with a path has the types for the path after its own entries. -/
  inside : ∀ place s, (place, s) ∈ m.scopes → ∃ kept,
    FramedRow plan.Inserts (fun below => plan.EditsAt m (place ++ below)) 0
        s.scope.body.entries kept
      ∧ (place, { s with
          scope := { s.scope with
            body := ⟨kept ++ (if m.firstBlock? s.path = some place then plan.runFor s.path else []),
              s.scope.body.trailing⟩ } }) ∈ result.scopes
  /-- The end of the module has the types for the other paths. -/
  atEnd : ∃ kept,
    FramedRow plan.Inserts (plan.EditsAt m) 0 m.body.entries kept
      ∧ result.body
        = ⟨kept ++ (m.pathsAtEnd plan).flatMap (m.runAtEnd plan), m.body.trailing⟩
  /-- Taking out every inserted type once leaves the module as it is without insertions. -/
  once : ∃ taken,
    TakingOut m.lineBreak result.body.entries taken
        (m.compose { plan with insertions := [] }).body.entries
      ∧ taken.Perm (plan.insertions.map Insertion.entry)

theorem goesToEnd_iff (m : SourceModule) (path : String) :
    goesToEnd m path = true
      ↔ path = "" ∨ fileScope? m = some path ∨ m.language.hasBlockNamespaces = false := by
  rw [goesToEnd]
  cases fileScope? m with
  | none => simp
  | some name =>
    rw [Option.some.injEq, eq_comm (a := name)]
    simp [or_assoc, or_left_comm]

/-- What a module puts at its end, path by path. -/
theorem flatMap_endEntries {m : SourceModule} (hnames : ∀ x ∈ m.scopes, x.2.scope.name ≠ "")
    (plan : EditPlan) :
    (withoutAll (m.blocks.map Prod.snd) (groupInsertions plan.insertions)).flatMap (endEntries m)
      = (m.pathsAtEnd plan).flatMap (m.runAtEnd plan) := by
  have hpaths : ∀ path, path ∉ m.blocks.map Prod.snd ↔ m.firstBlock? path = none := by
    intro path
    rw [← firstPlace?_blocks hnames, firstPlace?_eq_none_iff]
  have hrun : ∀ path, endEntries m (path, plan.runFor path) = m.runAtEnd plan path := by
    intro path
    simp only [endEntries, SourceModule.runAtEnd, goesToEnd_iff]
  rw [withoutAll_eq_filter, groupInsertions_eq, List.filter_map, List.flatMap_map,
    SourceModule.pathsAtEnd]
  have hfilter : (plan.insertions.map Insertion.path).eraseDups.filter
        (fun path => path ∉ m.blocks.map Prod.snd)
      = (plan.insertions.map Insertion.path).eraseDups.filter
          fun path => m.firstBlock? path = none :=
    List.filter_congr fun path _ => decide_eq_decide.2 (hpaths path)
  exact (congrArg (List.flatMap · _) (funext hrun)).trans (congrArg _ hfilter)

/-! ## The insertions of a merge -/

/-- The type that an item is about, if it is about one. -/
def Item.newType? : Item → Option IndexedType
  | .type theirs => some theirs
  | .method .. => none

theorem filterMap_newType?_items (first : Index) (types : List IndexedType) :
    (types.flatMap (·.items first)).filterMap Item.newType?
      = types.filter fun t => !first.contains t.qualified := by
  induction types with
  | nil => rfl
  | cons t rest ih =>
    rw [List.flatMap_cons, List.filterMap_append, ih, List.filter_cons,
      Index.contains_eq_isSome_get?, IndexedType.items]
    cases first.get? t.qualified with
    | none => rfl
    | some ours => simp [List.filterMap_map, Function.comp_def, Item.newType?]

/-- What a merge inserts are the second input's types that the first lacks, in source order. -/
theorem insertions_merge (tag : String) (resolutions : Option Resolutions)
    (first second : SourceModule) :
    (merge tag resolutions first second).edits.insertions.map
        (fun i => (i.path, i.entry.leading, i.entry.decl))
      = ((Index.ofModule second).types.filter
          fun t => !(Index.ofModule first).contains t.qualified).map
            fun t => (t.path, t.leading, .type t.type) := by
  have hitem : ∀ x : Item × Nat,
      (Resolver.insertion? ⟨tag, resolutions⟩ x).map
          (fun i => (i.path, i.entry.leading, i.entry.decl))
        = x.1.newType?.map fun t => (t.path, t.leading, .type t.type) := by
    rintro ⟨item, id⟩
    cases item <;> rfl
  have hcount : (Index.ofModule second).types.flatMap (·.items (Index.ofModule first))
      = (numberedItems (Index.ofModule first) (Index.ofModule second)).map Prod.fst :=
    (List.zipIdx_map_fst 1 _).symm
  rw [merge, Resolver.insertions_resolve, List.map_filterMap, ← filterMap_newType?_items,
    List.map_filterMap, hcount, List.filterMap_map]
  exact congrArg (List.filterMap · _) (funext hitem)

/-- **Every new type is placed once and where it belongs.** -/
theorem placement_compose (m : SourceModule) (plan : EditPlan) (h : Keyed plan.edits)
    (hnames : ∀ x ∈ m.scopes, x.2.scope.name ≠ "") :
    Placement m plan (m.compose plan)
      ∧ ∀ tag resolutions second, plan = (merge tag resolutions m second).edits →
        plan.insertions.map (fun i => (i.path, i.entry.leading, i.entry.decl))
          = ((Index.ofModule second).types.filter
              fun t => !(Index.ofModule m).contains t.qualified).map
                fun t => (t.path, t.leading, .type t.type) := by
  refine ⟨⟨fun place s hs => ?_, ?_, exists_takingOut_insertions m plan⟩, ?_⟩
  · -- A namespace has its own entries, changed from within, and then what it gets.
    refine ⟨_, EditPlan.framedRow_below plan m place s.scope.body.entries, ?_⟩
    have hplaced := mem_scopes_changedRow (c := plan.changes m) hs
    rw [compose_eq m plan h, ← gets_changes hnames plan hs, SourceModule.scopes,
      scopesUnder_append]
    obtain ⟨path, ⟨name, form, header, ⟨entries, trailing⟩, footer⟩⟩ := s
    simp only [Scope.changed, Changes.below, List.append_nil] at hplaced
    exact List.mem_append_left _ hplaced
  · refine ⟨_, EditPlan.framedRow_below plan m [] m.body.entries, ?_⟩
    rw [compose_eq m plan h, flatMap_endEntries hnames plan]
    rfl
  · rintro tag resolutions second rfl
    exact insertions_merge tag resolutions m second

/-- Two new types for nested namespaces go into them, in order, and one that has none gets its
own. -/
theorem placement_compose_sample :
    let m : SourceModule := ⟨.csharp, false, false, ⟨[sampleNamespace "A" [sampleNamespace "B" []],
      sampleNamespace "A.B" [sampleBody "S" []]], "\n"⟩⟩
    let plan : EditPlan := ⟨[], [⟨"A.B", sampleBody "T" []⟩, ⟨"C", sampleBody "U" []⟩,
      ⟨"A.B", sampleBody "V" []⟩], []⟩
    Keyed plan.edits ∧ (∀ x ∈ m.scopes, x.2.scope.name ≠ "")
      ∧ Placement m plan (m.compose plan) := by
  intro m plan
  have hnames : ∀ x ∈ m.scopes, x.2.scope.name ≠ "" := by decide +kernel
  exact ⟨keyed_nil, hnames, (placement_compose m plan keyed_nil hnames).1⟩

end ModuleMerge
