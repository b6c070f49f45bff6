import ModuleMerge.Proofs.Changes

/-!
# Namespaces in source order

A namespace is found by its path, and where several have one path the first in the file is meant.
The merge meets the ends of namespaces instead, and inner ends come first. The two orders agree on
what is first: a namespace inside another has a longer path, so it is never in question for the
same types.

Nesting is what could spoil it. The end of an inner namespace is met while the outer one is still
open, so if both had one path, the inner would be served though the outer begins first. For a
namespace without a name this does happen: its path is that of the one around it. So names are
asked for in what follows, and then paths get longer on the way down.

A namespace for the whole file has no end to put anything at. It is listed with the others, since
it is part of the paths, but it is not among the blocks.

* `scopesUnder` lists the namespaces of a row with their places, in source order.
* `SourceModule.firstBlock?` is the first block namespace with a path.
* `firstPlace?_blocks` says that it is also the first whose end is met.
* `gets_changes` says what a plan puts at the end of each namespace.
-/

set_option autoImplicit false

namespace ModuleMerge

/-! ## Namespaces with their places -/

/-- A namespace where it stands in a module. -/
structure IndexedScope where
  /-- The path of the namespace, its own name included. -/
  path : String
  scope : Scope

mutual

/-- The namespaces of one entry with their places below it, the outer before the inner ones. -/
def Entry.scopes (path : String) : Entry → List (Place × IndexedScope)
  | ⟨_, _, .scope ⟨name, form, header, ⟨entries, trailing⟩, footer⟩⟩ =>
    ([], ⟨qualify path name, ⟨name, form, header, ⟨entries, trailing⟩, footer⟩⟩)
      :: scopesUnder (qualify path name) 0 entries
  | ⟨_, _, .type _⟩ => []
  | ⟨_, _, .method _⟩ => []
  | ⟨_, _, .verbatim _⟩ => []

/-- The namespaces of a row of entries with their places, in source order. -/
def scopesUnder (path : String) (position : Nat) : List Entry → List (Place × IndexedScope)
  | [] => []
  | e :: rest =>
    (e.scopes path).map (fun x => (position :: x.1, x.2))
      ++ scopesUnder (e.pathAfter path) (position + 1) rest

end

/-- The namespaces of a module with their places, in source order. -/
def SourceModule.scopes (m : SourceModule) : List (Place × IndexedScope) :=
  scopesUnder "" 0 m.body.entries

/-- Where the first block namespace with a path stands. -/
def SourceModule.firstBlock? (m : SourceModule) (path : String) : Option Place :=
  (m.scopes.find? fun x => x.2.scope.form = .block && x.2.path = path).map Prod.fst

theorem scopesUnder_append (path : String) (position : Nat) (xs ys : List Entry) :
    scopesUnder path position (xs ++ ys)
      = scopesUnder path position xs
        ++ scopesUnder (pathAfterRow path xs) (position + xs.length) ys := by
  induction xs generalizing path position with
  | nil => rfl
  | cons e rest ih => simp [scopesUnder, ih, pathAfterRow, Nat.add_assoc, Nat.add_comm 1]

/-- Whatever is listed from a position on stands there or further down the row. -/
theorem from_of_mem_scopesUnder {path : String} {position : Nat} {es : List Entry}
    {x : Place × IndexedScope} (h : x ∈ scopesUnder path position es) :
    Place.From position x.1 := by
  induction es generalizing path position x with
  | nil => simp [scopesUnder] at h
  | cons e rest ih => exact from_of_mem_row (fun _ => ih) h

/-- The namespaces of a row come in the order of the source text. -/
theorem inOrder_scopesUnder (path : String) (position : Nat) (es : List Entry) :
    InOrder (scopesUnder path position es) := by
  induction es using row_induction generalizing path position with
  | nil => exact .nil
  | scope leading notes name form header entries trailing footer rest ihBody ihRest =>
    -- The namespace itself stands before those in its body.
    refine InOrder.row (List.pairwise_cons.2 ⟨fun x hx => ?_, ihBody (qualify path name) 0⟩)
      (ihRest _ _) fun _ => from_of_mem_scopesUnder
    obtain ⟨head, below, hcons, -⟩ := from_of_mem_scopesUnder hx
    rw [hcons]
    exact List.nil_lt_cons head below
  | type leading notes t rest ih =>
    exact InOrder.row .nil (ih _ _) fun _ => from_of_mem_scopesUnder
  | method leading notes m rest ih =>
    exact InOrder.row .nil (ih _ _) fun _ => from_of_mem_scopesUnder
  | verbatim leading notes text rest ih =>
    exact InOrder.row .nil (ih _ _) fun _ => from_of_mem_scopesUnder

/-- No two namespaces stand at one place. -/
theorem keyed_scopesUnder (path : String) (position : Nat) (es : List Entry) :
    Keyed (scopesUnder path position es) :=
  (inOrder_scopesUnder path position es).keyed

/-! ## The first of a path

First it is seen that both lists have the same members. That they agree on the first of each path is
the induction below, over the row and everything in it. -/

/-- The block namespaces of a list by their paths. -/
def namedBlocks (xs : List (Place × IndexedScope)) : List (Place × String) :=
  (xs.filter (·.2.scope.form = .block)).map fun x => (x.1, x.2.path)

/-- In source order a namespace comes before those inside it. -/
theorem namedBlocks_scopesUnder (path : String) (position : Nat) {leading : String}
    {notes : List String} {name : String} {form : ScopeForm} {header trailing footer : String}
    {entries rest : List Entry} :
    namedBlocks (scopesUnder path position
        (⟨leading, notes, .scope ⟨name, form, header, ⟨entries, trailing⟩, footer⟩⟩ :: rest))
      = (form.named (qualify path name)
          ++ namedBlocks (scopesUnder (qualify path name) 0 entries)).map
            (fun x => (position :: x.1, x.2))
        ++ namedBlocks
            (scopesUnder (form.pathAfter path (qualify path name)) (position + 1) rest) := by
  cases form <;>
    simp [namedBlocks, scopesUnder, Entry.scopes, Entry.pathAfter, ScopeForm.named,
      List.filter_map, Function.comp_def]

/-- A row has the same block namespaces in the order of their ends. -/
theorem blocksUnder_perm (path : String) (position : Nat) (es : List Entry) :
    (blocksUnder path position es).Perm (namedBlocks (scopesUnder path position es)) := by
  induction es using row_induction generalizing path position with
  | nil => rfl
  | scope leading notes name form header entries trailing footer rest ihBody ihRest =>
    rw [namedBlocks_scopesUnder, blocksUnder, Entry.blocks]
    refine (List.Perm.map _ ?_).append (ihRest _ _)
    exact List.perm_append_comm.trans ((ihBody (qualify path name) 0).append_left _)
  | type leading notes t rest ih => exact ih path (position + 1)
  | method leading notes m rest ih => exact ih path (position + 1)
  | verbatim leading notes text rest ih => exact ih path (position + 1)

theorem length_lt_qualify (path : String) {name : String} (h : name ≠ "") :
    path.length < (qualify path name).length := by
  have hname : name.length ≠ 0 := fun hzero => h (String.length_eq_zero_iff.1 hzero)
  rw [length_qualify]
  split
  · rename_i hpath
    rw [hpath, String.length_empty]
    omega
  · omega

/-- If all namespaces from one on have names, it has one, and so have those in it and after it. -/
theorem names_of_scope {path : String} {position : Nat} {leading : String} {notes : List String}
    {name : String} {form : ScopeForm} {header trailing footer : String} {entries rest : List Entry}
    (h : ∀ x ∈ scopesUnder path position
      (⟨leading, notes, .scope ⟨name, form, header, ⟨entries, trailing⟩, footer⟩⟩ :: rest),
      x.2.scope.name ≠ "") :
    name ≠ "" ∧ (∀ x ∈ scopesUnder (qualify path name) 0 entries, x.2.scope.name ≠ "")
      ∧ ∀ x ∈ scopesUnder (form.pathAfter path (qualify path name)) (position + 1) rest,
        x.2.scope.name ≠ "" := by
  simp only [scopesUnder, Entry.scopes, Entry.pathAfter, List.map_cons, List.cons_append,
    List.forall_mem_cons, List.forall_mem_append, List.forall_mem_map] at h
  exact h

/-- Where namespaces have names, all of a row have longer paths than the row. -/
theorem length_lt_of_mem_scopesUnder {path : String} {position : Nat} {es : List Entry}
    (hnames : ∀ x ∈ scopesUnder path position es, x.2.scope.name ≠ "")
    {x : Place × IndexedScope} (h : x ∈ scopesUnder path position es) :
    path.length < x.2.path.length := by
  induction es using row_induction generalizing path position x with
  | nil => simp [scopesUnder] at h
  | scope leading notes name form header entries trailing footer rest ihBody ihRest =>
    obtain ⟨hname, hbody, hrest⟩ := names_of_scope hnames
    have hself := length_lt_qualify path hname
    rcases List.mem_append.1 h with h | h
    · obtain ⟨y, hy, rfl⟩ := List.mem_map.1 h
      rcases List.mem_cons.1 hy with rfl | hy
      · exact hself
      · have hinside : (qualify path name).length < y.2.path.length := ihBody hbody hy
        exact Nat.lt_trans hself hinside
    · have hafter := ihRest hrest h
      cases form with
      | block => exact hafter
      | file => exact Nat.lt_trans hself hafter
  | type leading notes t rest ih => exact ih hnames h
  | method leading notes m rest ih => exact ih hnames h
  | verbatim leading notes text rest ih => exact ih hnames h

/-- A namespace and those inside it may change places if they do not have its path. -/
theorem firstPlace?_named_comm (form : ScopeForm) {path : String} {xs : List (Place × String)}
    (h : ∀ x ∈ xs, x.2 ≠ path) (name : String) :
    (firstPlace? name xs).or (firstPlace? name (form.named path))
      = (firstPlace? name (form.named path)).or (firstPlace? name xs) := by
  cases form with
  | file => exact Option.or_none
  | block =>
    rw [ScopeForm.named, firstPlace?_cons]
    split
    · rename_i hname
      have hnone : firstPlace? name xs = none := by
        refine firstPlace?_eq_none_iff.2 fun hmem => ?_
        obtain ⟨x, hx, heq⟩ := List.mem_map.1 hmem
        exact h x hx (heq.trans hname.symm)
      rw [hnone, Option.none_or, Option.or_none]
    · exact Option.or_none

/-- Where namespaces have names, the first of a path in source order has its end first. -/
theorem firstPlace?_blocksUnder {path : String} {position : Nat} {es : List Entry}
    (hnames : ∀ x ∈ scopesUnder path position es, x.2.scope.name ≠ "") (name : String) :
    firstPlace? name (blocksUnder path position es)
      = firstPlace? name (namedBlocks (scopesUnder path position es)) := by
  induction es using row_induction generalizing path position with
  | nil => rfl
  | scope leading notes scopeName form header entries trailing footer rest ihBody ihRest =>
    obtain ⟨-, hbody, hrest⟩ := names_of_scope hnames
    have hinside : ∀ x ∈ namedBlocks (scopesUnder (qualify path scopeName) 0 entries),
        x.2 ≠ qualify path scopeName := by
      rintro x hx heq
      obtain ⟨y, hy, rfl⟩ := List.mem_map.1 hx
      have hlonger := length_lt_of_mem_scopesUnder hbody (List.mem_filter.1 hy).1
      exact Nat.ne_of_gt hlonger (congrArg String.length heq)
    rw [namedBlocks_scopesUnder, blocksUnder, Entry.blocks, firstPlace?_append, firstPlace?_append,
      firstPlace?_map, firstPlace?_map, firstPlace?_append, firstPlace?_append, ihBody hbody,
      firstPlace?_named_comm form hinside]
    exact congrArg _ (ihRest hrest)
  | type leading notes t rest ih => exact ih hnames
  | method leading notes m rest ih => exact ih hnames
  | verbatim leading notes text rest ih => exact ih hnames

/-- **The first end that is met is that of the first block**, for every path. -/
theorem firstPlace?_blocks {m : SourceModule} (hnames : ∀ x ∈ m.scopes, x.2.scope.name ≠ "")
    (path : String) : firstPlace? path m.blocks = m.firstBlock? path := by
  rw [SourceModule.blocks, firstPlace?_blocksUnder hnames, firstPlace?, namedBlocks, List.find?_map,
    List.find?_filter, Option.map_map, SourceModule.firstBlock?, SourceModule.scopes]
  simp [Function.comp_def]

/-! ## What a plan puts at the end of a namespace

The plan hands its groups of types out as the ends are met, each group to the first that has its
path. -/

theorem mem_blocks_iff {m : SourceModule} {place : Place} {path : String} :
    (place, path) ∈ m.blocks
      ↔ ∃ s, (place, s) ∈ m.scopes ∧ s.scope.form = .block ∧ s.path = path := by
  rw [SourceModule.blocks, (blocksUnder_perm "" 0 m.body.entries).mem_iff, namedBlocks,
    List.mem_map]
  constructor
  · rintro ⟨⟨_, s⟩, hs, heq⟩
    obtain ⟨rfl, rfl⟩ := Prod.mk.inj heq
    obtain ⟨hmem, hform⟩ := List.mem_filter.1 hs
    exact ⟨s, hmem, of_decide_eq_true hform, rfl⟩
  · rintro ⟨s, hs, hform, rfl⟩
    exact ⟨(place, s), List.mem_filter.2 ⟨hs, decide_eq_true hform⟩, rfl⟩

theorem keyed_blocks (m : SourceModule) : Keyed m.blocks := by
  have hperm := (blocksUnder_perm "" 0 m.body.entries).map Prod.fst
  refine hperm.nodup_iff.2 ?_
  rw [namedBlocks, List.map_map]
  exact (keyed_scopesUnder "" 0 m.body.entries).filter _

/-- The new types that a plan has for a namespace path, in order. -/
def EditPlan.runFor (plan : EditPlan) (path : String) : List Entry :=
  (plan.insertions.filter (·.path = path)).map Insertion.entry

/-- **The first block namespace with a path gets the types for the path**, and no other does. -/
theorem gets_changes {m : SourceModule} (hnames : ∀ x ∈ m.scopes, x.2.scope.name ≠ "")
    (plan : EditPlan) {place : Place} {s : IndexedScope} (hs : (place, s) ∈ m.scopes) :
    s.scope.form.gets ((plan.changes m).run? place)
      = if m.firstBlock? s.path = some place then plan.runFor s.path else [] := by
  cases hform : s.scope.form with
  | file =>
    -- Nothing is put at the end of it, and it is no block, so it is not the first one either.
    have hother : m.firstBlock? s.path ≠ some place := by
      intro hfirst
      rw [← firstPlace?_blocks hnames] at hfirst
      obtain ⟨s', hs', hblock, -⟩ := mem_blocks_iff.1 (mem_of_firstPlace? hfirst)
      have hkeyed := keyed_scopesUnder "" 0 m.body.entries
      have hsame : some s' = some s :=
        (valueOf?_of_mem hkeyed hs').symm.trans (valueOf?_of_mem hkeyed hs)
      rw [Option.some.inj hsame, hform] at hblock
      contradiction
    rw [if_neg hother]
    rfl
  | block =>
    have hblock : (place, s.path) ∈ m.blocks := mem_blocks_iff.2 ⟨s, hs, hform, rfl⟩
    show (valueOf? place (handOut (groupInsertions plan.insertions) m.blocks)).getD [] = _
    rw [valueOf?_handOut (keyed_blocks m) hblock, firstPlace?_blocks hnames]
    split
    · exact valueOf?_groupInsertions s.path plan.insertions
    · rfl

end ModuleMerge
