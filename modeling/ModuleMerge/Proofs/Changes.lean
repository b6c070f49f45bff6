import ModuleMerge.Proofs.HandOut
import ModuleMerge.Proofs.Standing

/-!
# What a plan changes at each place

Composing a module walks through it twice with a table in hand, and what it does at one place
depends on what it took from the table before. What comes of it does not: a type is edited if it is
the first of its name, and a block namespace gets the new types for its path if its end is the
first end for that path. So the merged module is described here place by place, without a table.

The two walks follow each other: the second one goes through the module that the first has edited.
An edit keeps entries where they are and leaves names, so places mean the same to both, and the two
can be described as one. Into the end of a namespace the second walk puts more entries, but only
behind all others, where no place is counted any more.

The table is the reason why the induction is not one on places. What a walk does with a row is known
only relative to the table that it has at its start, so the statement that is carried along says how
the changes and the table belong together (`HandsOut`): from here on, the changes are what is handed
out if the table is taken along the named places that are still to come. At each entry this splits,
into the entry itself and the rest of the row with what the entry has left.

* `Changes` says for every place what happens there, and `changedRow` makes the changes.
* `blocksUnder` lists the block namespaces of a row with their places, in the order of their ends.
* `EditPlan.changes` are the changes of a plan, and `compose_eq` says that composing makes them.
-/

set_option autoImplicit false

namespace ModuleMerge

/-! ## Changes by place -/

/-- What happens at the places below an entry or in a row of entries. -/
structure Changes where
  /-- The edit of the type at a place. -/
  edit? : Place → Option TypeEdit
  /-- The entries that go to the end of the block namespace at a place. -/
  run? : Place → Option (List Entry)

/-- The changes below one entry of a row. -/
def Changes.under (c : Changes) (position : Nat) : Changes where
  edit? place := c.edit? (position :: place)
  run? place := c.run? (position :: place)

/-- The changes below a place. -/
def Changes.below (c : Changes) (place : Place) : Changes where
  edit? rest := c.edit? (place ++ rest)
  run? rest := c.run? (place ++ rest)

/-- What a namespace gets: one in file form has no end of its own. -/
def ScopeForm.gets (form : ScopeForm) (run? : Option (List Entry)) : List Entry :=
  match form with
  | .file => []
  | .block => run?.getD []

mutual

/-- An entry after the changes below it. -/
def Entry.changed (c : Changes) : Entry → Entry
  | ⟨leading, annotations, .scope ⟨name, form, header, ⟨entries, trailing⟩, footer⟩⟩ =>
    ⟨leading, annotations,
      .scope ⟨name, form, header, ⟨changedRow c 0 entries ++ form.gets (c.run? []), trailing⟩,
        footer⟩⟩
  | ⟨leading, annotations, .type type⟩ =>
    ⟨leading, annotations, .type (((c.edit? []).getD .empty).applyTo type)⟩
  | ⟨leading, annotations, .method method⟩ => ⟨leading, annotations, .method method⟩
  | ⟨leading, annotations, .verbatim text⟩ => ⟨leading, annotations, .verbatim text⟩

/-- A row of entries after the changes in it, the first entry standing at `position`. -/
def changedRow (c : Changes) (position : Nat) : List Entry → List Entry
  | [] => []
  | e :: rest => e.changed (c.under position) :: changedRow c (position + 1) rest

end

/-! ## Named places -/

/-- The types of an entry by name, with their places below it. -/
def Entry.typeNames (path : String) (e : Entry) : List (Place × String) :=
  (e.placed path).map fun x => (x.1, x.2.qualified)

/-- The types of a row by name, with their places. -/
def typeNames (path : String) (position : Nat) (es : List Entry) : List (Place × String) :=
  (placedUnder path position es).map fun x => (x.1, x.2.qualified)

/-- A namespace itself, if it is in block form, by its path. -/
def ScopeForm.named (form : ScopeForm) (path : String) : List (Place × String) :=
  match form with
  | .file => []
  | .block => [([], path)]

mutual

/-- The block namespaces of one entry with their places below it and their paths, in the order of
their ends. -/
def Entry.blocks (path : String) : Entry → List (Place × String)
  | ⟨_, _, .scope ⟨name, form, _, ⟨entries, _⟩, _⟩⟩ =>
    blocksUnder (qualify path name) 0 entries ++ form.named (qualify path name)
  | ⟨_, _, .type _⟩ => []
  | ⟨_, _, .method _⟩ => []
  | ⟨_, _, .verbatim _⟩ => []

/-- The block namespaces of a row of entries with their places and paths, in the order of their
ends. -/
def blocksUnder (path : String) (position : Nat) : List Entry → List (Place × String)
  | [] => []
  | e :: rest =>
    (e.blocks path).map (fun x => (position :: x.1, x.2))
      ++ blocksUnder (e.pathAfter path) (position + 1) rest

end

theorem typeNames_cons (path : String) (position : Nat) (e : Entry) (rest : List Entry) :
    typeNames path position (e :: rest)
      = (e.typeNames path).map (fun x => (position :: x.1, x.2))
        ++ typeNames (e.pathAfter path) (position + 1) rest := by
  simp [typeNames, Entry.typeNames, placedUnder, Function.comp_def]

/-- Without the places these are the names that the walk meets. -/
theorem map_snd_typeNames (path : String) (position : Nat) (es : List Entry) :
    (typeNames path position es).map Prod.snd
      = (typesUnder path es).map IndexedType.qualified := by
  rw [← map_qualified_placedUnder path position es, typeNames, List.map_map]
  rfl

/-- And these are the paths of the ends that it meets. -/
theorem map_snd_blocksUnder (path : String) (position : Nat) (es : List Entry) :
    (blocksUnder path position es).map Prod.snd = (closingsUnder path es).map Prod.fst := by
  induction es using row_induction generalizing path position with
  | nil => rfl
  | scope _ _ name form _ entries _ _ rest ihBody ihRest =>
    cases form <;>
      simp [blocksUnder, Entry.blocks, ScopeForm.named, closingsUnder, Entry.closings,
        Function.comp_def, ihBody, ihRest]
  | type _ _ t rest ih => exact ih path (position + 1)
  | method _ _ m rest ih => exact ih path (position + 1)
  | verbatim _ _ text rest ih => exact ih path (position + 1)

theorem from_of_mem_typeNames {path : String} {position : Nat} {es : List Entry}
    {x : Place × String} (h : x ∈ typeNames path position es) : Place.From position x.1 := by
  obtain ⟨y, hy, rfl⟩ := List.mem_map.1 h
  exact from_of_mem_placedUnder hy

theorem from_of_mem_blocksUnder {path : String} {position : Nat} {es : List Entry}
    {x : Place × String} (h : x ∈ blocksUnder path position es) : Place.From position x.1 := by
  induction es generalizing path position x with
  | nil => simp [blocksUnder] at h
  | cons e rest ih => exact from_of_mem_row (fun _ => ih) h

/-! ## A table against its look-up by place -/

section

variable {α : Type} {lookup : Place → Option α} {position : Nat} {pending : List (String × α)}
  {xs ys : List (Place × String)}

/-- What a look-up by place finds in a row from `position` on is what a table has for the named
places of the row. -/
def HandsOut (lookup : Place → Option α) (position : Nat) (pending : List (String × α))
    (names : List (Place × String)) : Prop :=
  ∀ place, Place.From position place → lookup place = valueOf? place (handOut pending names)

theorem valueOf?_handOut_of_not_mem {place : Place} (h : ∀ x ∈ xs, x.1 ≠ place) :
    valueOf? place (handOut pending xs) = none := by
  refine valueOf?_eq_none_iff.2 fun hmem => ?_
  obtain ⟨x, hx, rfl⟩ := List.mem_map.1 hmem
  obtain ⟨y, hy, heq⟩ := List.mem_map.1 (fst_mem_of_mem_handOut hx)
  exact h y hy heq

theorem valueOf?_map_cons (head : Nat) (below : Place) (pairs : List (Place × α)) :
    valueOf? (head :: below) (pairs.map fun x => (position :: x.1, x.2))
      = if position = head then valueOf? below pairs else none := by
  induction pairs with
  | nil => simp
  | cons pair rest ih =>
    rw [List.map_cons, valueOf?_cons, valueOf?_cons, ih]
    by_cases h : position = head <;> simp [h]

/-- What happens below the first entry of a row. -/
theorem HandsOut.head
    (h : HandsOut lookup position pending (xs.map (fun x => (position :: x.1, x.2)) ++ ys))
    (hys : ∀ y ∈ ys, Place.From (position + 1) y.1) (place : Place) :
    lookup (position :: place) = valueOf? place (handOut pending xs) := by
  have hnone : valueOf? (position :: place)
      (handOut (withoutAll ((xs.map fun x => (position :: x.1, x.2)).map Prod.snd) pending) ys)
        = none := by
    refine valueOf?_handOut_of_not_mem fun y hy heq => ?_
    obtain ⟨head, below, hcons, hle⟩ := hys y hy
    obtain rfl : head = position := (List.cons.inj (hcons.symm.trans heq)).1
    omega
  rw [h _ ⟨position, place, rfl, Nat.le_refl _⟩, handOut_append, valueOf?_append, hnone,
    handOut_map, valueOf?_map_cons, if_pos rfl, Option.or_none]

/-- What happens in the rest of a row. -/
theorem HandsOut.tail
    (h : HandsOut lookup position pending (xs.map (fun x => (position :: x.1, x.2)) ++ ys)) :
    HandsOut lookup (position + 1) (withoutAll (xs.map Prod.snd) pending) ys := by
  rintro place ⟨head, below, rfl, hle⟩
  have hne : position ≠ head := by omega
  rw [h _ ⟨head, below, rfl, by omega⟩, handOut_append, valueOf?_append, handOut_map,
    valueOf?_map_cons, if_neg hne, Option.none_or, List.map_map]
  rfl

/-- What a namespace gets itself is nothing to the places in its body. -/
theorem valueOf?_handOut_named (form : ScopeForm) (path : String) {place : Place}
    (h : Place.From 0 place) :
    valueOf? place (handOut pending (xs ++ form.named path))
      = valueOf? place (handOut pending xs) := by
  have hnone : valueOf? place (handOut (withoutAll (xs.map Prod.snd) pending) (form.named path))
      = none := by
    refine valueOf?_handOut_of_not_mem fun y hy heq => ?_
    obtain ⟨head, below, rfl, -⟩ := h
    cases form with
    | file => exact absurd hy List.not_mem_nil
    | block => simp [List.mem_singleton.1 hy] at heq
  rw [handOut_append, valueOf?_append, hnone, Option.or_none]

/-- A namespace gets what the namespaces in its body leave. -/
theorem gets_handOut_named (form : ScopeForm) (path : String) {groups : InsertionGroups}
    (h : ∀ x ∈ xs, Place.From 0 x.1) :
    form.gets (valueOf? [] (handOut groups (xs ++ form.named path)))
      = form.takes path (withoutAll (xs.map Prod.snd) groups) := by
  cases form with
  | file => rfl
  | block =>
    have hnone : valueOf? [] (handOut groups xs) = none := by
      refine valueOf?_handOut_of_not_mem fun x hx heq => ?_
      obtain ⟨head, below, hcons, -⟩ := h x hx
      exact List.cons_ne_nil _ _ (hcons.symm.trans heq)
    rw [handOut_append, valueOf?_append, hnone, Option.none_or, ScopeForm.gets, ScopeForm.takes,
      ScopeForm.named]
    cases hvalue : valueOf? path (withoutAll (xs.map Prod.snd) groups) <;> simp [handOut, hvalue]

end

/-! ## The walks, place by place -/

section

variable {c : Changes} {path : String} {position : Nat} {pending : List (String × TypeEdit)}
  {groups : InsertionGroups}

/-- Along a row the two tables are handed on from entry to entry. -/
theorem insertEntries_editEntries_cons {e : Entry} {rest : List Entry} (hpending : Keyed pending)
    (hgroups : Keyed groups)
    (hedit : HandsOut c.edit? position pending (typeNames path position (e :: rest)))
    (hrun : HandsOut c.run? position groups (blocksUnder path position (e :: rest)))
    (hhead : (∀ place, (c.under position).edit? place
        = valueOf? place (handOut pending (e.typeNames path))) →
      (∀ place, (c.under position).run? place = valueOf? place (handOut groups (e.blocks path))) →
      (insertEntry path groups (editEntry path pending e).1).1 = e.changed (c.under position))
    (hrest : ∀ {pending : List (String × TypeEdit)} {groups : InsertionGroups}, Keyed pending →
      Keyed groups →
      HandsOut c.edit? (position + 1) pending (typeNames (e.pathAfter path) (position + 1) rest) →
      HandsOut c.run? (position + 1) groups (blocksUnder (e.pathAfter path) (position + 1) rest) →
      (insertEntries (e.pathAfter path) groups (editEntries (e.pathAfter path) pending rest).1).1
        = changedRow c (position + 1) rest) :
    (insertEntries path groups (editEntries path pending (e :: rest)).1).1
      = changedRow c position (e :: rest) := by
  rw [typeNames_cons] at hedit
  rw [blocksUnder] at hrun
  have hnames : (e.typeNames path).map Prod.snd
      = (typesUnder path [e]).map IndexedType.qualified := by
    simpa [Entry.typeNames, Function.comp_def, typeNames, placedUnder]
      using map_snd_typeNames path 0 [e]
  have hpaths : (e.blocks path).map Prod.snd = (closingsUnder path [e]).map Prod.fst := by
    simpa [blocksUnder, Function.comp_def] using map_snd_blocksUnder path 0 [e]
  have hleft : (insertEntry path groups (editEntry path pending e).1).2
      = withoutAll ((e.blocks path).map Prod.snd) groups := by
    rw [left_insertEntry_editEntry path pending e hgroups, left_insertEntry path e hgroups, hpaths]
  simp only [editEntries, insertEntries, changedRow, pathAfter_editEntry, hleft,
    left_editEntry path e hpending, ← hnames]
  congr 1
  · exact hhead (hedit.head fun y hy => from_of_mem_typeNames hy)
      (hrun.head fun y hy => from_of_mem_blocksUnder hy)
  · exact hrest (hpending.withoutAll _) (hgroups.withoutAll _) hedit.tail hrun.tail

/-- **Both walks together make the changes place by place**, if these are what the tables have for
the places of the row. -/
theorem insertEntries_editEntries (es : List Entry) (hpending : Keyed pending)
    (hgroups : Keyed groups)
    (hedit : HandsOut c.edit? position pending (typeNames path position es))
    (hrun : HandsOut c.run? position groups (blocksUnder path position es)) :
    (insertEntries path groups (editEntries path pending es).1).1 = changedRow c position es := by
  induction es using row_induction generalizing c path position pending groups with
  | nil => rfl
  | scope leading notes name form header entries trailing footer rest ihBody ihRest =>
    -- The end of the namespace comes after its body, so it gets what the body has left.
    refine insertEntries_editEntries_cons hpending hgroups hedit hrun (fun hedit hrun => ?_) ihRest
    have hbody := ihBody hpending hgroups (fun place _ => hedit place) fun place hplace =>
      (hrun place).trans (valueOf?_handOut_named form (qualify path name) hplace)
    have hend : form.gets ((c.under position).run? [])
        = form.takes (qualify path name)
          (insertEntries (qualify path name) groups
            (editEntries (qualify path name) pending entries).1).2 := by
      rw [hrun [], Entry.blocks, gets_handOut_named _ _ fun x hx => from_of_mem_blocksUnder hx,
        left_insertEntries_editEntries _ _ _ hgroups, left_insertEntries _ _ hgroups,
        map_snd_blocksUnder]
    have hkeyed := hgroups.left_insertEntries (qualify path name)
      (editEntries (qualify path name) pending entries).1
    simp only [editEntry, insertEntry, Entry.changed, insertInto_eq _ _ _ hkeyed, hbody, hend]
  | type leading notes t rest ih =>
    refine insertEntries_editEntries_cons hpending hgroups hedit hrun (fun hedit _ => ?_) ih
    have hvalue : valueOf? [] (handOut pending
        (Entry.typeNames path ⟨leading, notes, .type t⟩))
          = valueOf? (qualify path t.name) pending := by
      rw [Entry.typeNames, Entry.placed]
      cases h : valueOf? (qualify path t.name) pending <;>
        simp [handOut, IndexedType.qualified, h]
    rw [editEntry_type path leading notes t hpending, insertEntry, Entry.changed, hedit [], hvalue]
  | method leading notes m rest ih =>
    exact insertEntries_editEntries_cons hpending hgroups hedit hrun (fun _ _ => rfl) ih
  | verbatim leading notes text rest ih =>
    exact insertEntries_editEntries_cons hpending hgroups hedit hrun (fun _ _ => rfl) ih

end

/-! ## The merged module, place by place -/

/-- The types of a module by name, with their places. -/
def SourceModule.typeNames (m : SourceModule) : List (Place × String) :=
  ModuleMerge.typeNames "" 0 m.body.entries

/-- The block namespaces of a module with their places and paths, in the order of their ends. -/
def SourceModule.blocks (m : SourceModule) : List (Place × String) :=
  blocksUnder "" 0 m.body.entries

/-- What a plan changes at each place of a module. -/
def EditPlan.changes (plan : EditPlan) (m : SourceModule) : Changes where
  edit? place := valueOf? place (handOut plan.edits m.typeNames)
  run? place := valueOf? place (handOut (groupInsertions plan.insertions) m.blocks)

/-- **The merged module, place by place**: the changes of the plan, then the groups that no block
namespace of the module takes. -/
theorem compose_eq (m : SourceModule) (plan : EditPlan) (h : Keyed plan.edits) :
    m.compose plan
      = { m with
          body := ⟨changedRow (plan.changes m) 0 m.body.entries
            ++ (withoutAll (m.blocks.map Prod.snd) (groupInsertions plan.insertions)).flatMap
              (endEntries m), m.body.trailing⟩ } := by
  have hgroups := keyed_groupInsertions plan.insertions
  have hrow : (insertEntries "" (groupInsertions plan.insertions)
      (editEntries "" plan.edits m.body.entries).1).1
        = changedRow (plan.changes m) 0 m.body.entries :=
    insertEntries_editEntries m.body.entries h hgroups (fun _ _ => rfl) fun _ _ => rfl
  rw [SourceModule.compose, hrow,
    left_insertEntries_editEntries "" plan.edits m.body.entries hgroups,
    left_insertEntries "" m.body.entries hgroups, ← map_snd_blocksUnder "" 0]
  rfl

/-- The first place with the name of a type is where the first type of the name stands. -/
theorem firstPlace?_typeNames (m : SourceModule) (name : String) :
    firstPlace? name m.typeNames = (m.firstOf? name).map Prod.fst := by
  rw [firstPlace?, SourceModule.typeNames, ModuleMerge.typeNames, List.find?_map, Option.map_map]
  rfl

/-- A plan edits the first type of a name, and no other. -/
theorem EditPlan.edit?_changes {plan : EditPlan} {m : SourceModule} {place : Place}
    {edit : TypeEdit} :
    (plan.changes m).edit? place = some edit
      ↔ ∃ name t, m.firstOf? name = some (place, t) ∧ valueOf? name plan.edits = some edit := by
  have hkeyed : Keyed (handOut plan.edits m.typeNames) := by
    refine Keyed.handOut ?_ plan.edits
    rw [Keyed, SourceModule.typeNames, ModuleMerge.typeNames, List.map_map]
    exact keyed_placedUnder "" 0 m.body.entries
  have hmem : (plan.changes m).edit? place = some edit
      ↔ (place, edit) ∈ handOut plan.edits m.typeNames :=
    ⟨mem_of_valueOf?, valueOf?_of_mem hkeyed⟩
  simp only [hmem, mem_handOut_iff, firstPlace?_typeNames, Option.map_eq_some_iff, Prod.exists]
  constructor
  · rintro ⟨name, ⟨_, t, hfirst, rfl⟩, hvalue⟩
    exact ⟨name, t, hfirst, hvalue⟩
  · rintro ⟨name, t, hfirst, hvalue⟩
    exact ⟨name, ⟨place, t, hfirst, rfl⟩, hvalue⟩

/-- Whatever a plan puts at the end of a namespace is an insertion. -/
theorem EditPlan.exists_insertion_of_run {plan : EditPlan} {m : SourceModule} {place : Place}
    {e : Entry} (h : e ∈ ((plan.changes m).run? place).getD []) :
    ∃ i ∈ plan.insertions, i.entry = e := by
  cases hrun : (plan.changes m).run? place with
  | none => simp [hrun] at h
  | some run =>
    obtain ⟨path, -, hgroup⟩ := mem_handOut_iff.1 (mem_of_valueOf? hrun)
    have he : e ∈ run := by simpa [hrun] using h
    obtain ⟨i, hi, -, rfl⟩ := mem_insertions_of_group (mem_of_valueOf? hgroup) he
    exact ⟨i, hi, rfl⟩

end ModuleMerge
