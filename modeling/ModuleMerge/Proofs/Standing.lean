import ModuleMerge.Merge
import ModuleMerge.Proofs.Contributions

/-!
# Where types stand after the merge

Composing a module edits types from within and puts new types at the ends of blocks. Both walks
are followed here along the list of types with their places, so that later proofs speak of lists
and not of trees.

Each walk goes through the whole module with a table in hand, the edits or the groups of insertions,
and takes out of it what it uses. That makes what is done to an entry depend on all that was met
before it. Two facts undo the dependence.

* **What is left of the table** after a row depends on names only: of the edits, those are left
  whose name is not the name of a type in the row, and of the groups, those whose path is not that
  of a block namespace in it (`placedUnder_editEntries`, `left_insertEntries`). So one can go along
  the names of a row without knowing what became of its types.
* **Places and paths stay.** Edits change the inside of types, and insertions come behind all that
  is there. Neither adds, removes or renames a namespace that a later entry could notice, so the
  walk over insertions may be followed in the module as it was before the edits
  (`left_insertEntries_editEntries`, `closingsUnder_editEntries`).

The second walk leaves groups over, for paths that have no block namespace. They go to the end of
the module, bare or in a new namespace, as `goesToEnd` has it.

A type is not always found under the path that it was inserted for. A namespace in file form in the
body of the block, or at the top of the module, adds its name to all that comes after it, so a new
type at the end gets this name too. `SourceModule.landingPath` is the path that it has in the end.

* `placedUnder_editEntries` — editing changes that list like `editPlaced`: each edit goes to the
  first type of its name, and nothing moves.
* `mem_placedUnder_insertEntries` — inserting moves nothing either.
* `exists_placed_of_insertion` — every new type is in the merged module, under the path that
  `SourceModule.landingPath` gives.
-/

set_option autoImplicit false

namespace ModuleMerge

/-! ## Editing along a list of types -/

/-- A type after an edit, in its place. -/
def IndexedType.edited (t : IndexedType) (edit : TypeEdit) : IndexedType :=
  { t with type := edit.applyTo t.type }

@[simp] theorem IndexedType.edited_empty (t : IndexedType) : t.edited .empty = t := by
  rw [edited, applyTo_empty]

@[simp] theorem IndexedType.qualified_edited (t : IndexedType) (edit : TypeEdit) :
    (t.edited edit).qualified = t.qualified := rfl

/-- A list of types after the edits: each edit goes to the first type of its name. The table is
handed on without the name, whether or not it was there. -/
def editPlaced (pending : List (String × TypeEdit)) :
    List (Place × IndexedType) → List (Place × IndexedType)
  | [] => []
  | x :: xs =>
    (x.1, x.2.edited ((valueOf? x.2.qualified pending).getD .empty))
      :: editPlaced (without x.2.qualified pending) xs

/-- The second part of a list sees what the names of the first part have left. -/
theorem editPlaced_append (pending : List (String × TypeEdit))
    (xs ys : List (Place × IndexedType)) :
    editPlaced pending (xs ++ ys)
      = editPlaced pending xs
        ++ editPlaced (withoutAll (xs.map (·.2.qualified)) pending) ys := by
  induction xs generalizing pending with
  | nil => rfl
  | cons x rest ih => exact congrArg (_ :: ·) (ih _)

/-- Places play no part in it, so they may be put into a larger tree. -/
theorem editPlaced_map (pending : List (String × TypeEdit)) (position : Nat)
    (xs : List (Place × IndexedType)) :
    editPlaced pending (xs.map fun p => (position :: p.1, p.2))
      = (editPlaced pending xs).map fun p => (position :: p.1, p.2) := by
  induction xs generalizing pending with
  | nil => rfl
  | cons x rest ih => exact congrArg (_ :: ·) (ih _)

/-- A type that is not the first of its name stays as it is, and so does one without an edit. -/
theorem mem_editPlaced_of_valueOf?_eq_none {pending : List (String × TypeEdit)}
    {xs : List (Place × IndexedType)} {x : Place × IndexedType} (hx : x ∈ xs)
    (hnone : valueOf? x.2.qualified pending = none) : x ∈ editPlaced pending xs := by
  induction xs generalizing pending with
  | nil => simp at hx
  | cons y rest ih =>
    rw [editPlaced, List.mem_cons]
    rcases List.mem_cons.1 hx with rfl | hx
    · exact .inl (by simp [hnone])
    · refine .inr (ih hx ?_)
      rw [valueOf?_without, hnone, ite_self]

/-- The first type of a name is still the first after the edits, and it is edited. -/
theorem find?_editPlaced (pending : List (String × TypeEdit)) (xs : List (Place × IndexedType))
    (name : String) :
    (editPlaced pending xs).find? (·.2.qualified = name)
      = (xs.find? (·.2.qualified = name)).map fun x =>
          (x.1, x.2.edited ((valueOf? name pending).getD .empty)) := by
  induction xs generalizing pending with
  | nil => rfl
  | cons y rest ih =>
    rw [editPlaced, List.find?_cons, List.find?_cons]
    by_cases hname : y.2.qualified = name
    · simp [hname]
    · simp [hname, ih, valueOf?_without, Ne.symm hname]

/-- The first type of a name is edited in its place. -/
theorem mem_editPlaced_of_find? {pending : List (String × TypeEdit)}
    {xs : List (Place × IndexedType)} {x : Place × IndexedType} {name : String}
    (hx : xs.find? (·.2.qualified = name) = some x) :
    (x.1, x.2.edited ((valueOf? name pending).getD .empty)) ∈ editPlaced pending xs :=
  List.mem_of_find?_eq_some (by rw [find?_editPlaced, hx]; rfl)

/-- A type of the list stays as it is, or it is the first of its name. -/
theorem mem_editPlaced_or_find? {pending : List (String × TypeEdit)}
    {xs : List (Place × IndexedType)} {x : Place × IndexedType} (hx : x ∈ xs) :
    x ∈ editPlaced pending xs ∨ xs.find? (·.2.qualified = x.2.qualified) = some x := by
  induction xs generalizing pending with
  | nil => simp at hx
  | cons y rest ih =>
    rw [editPlaced, List.mem_cons, List.find?_cons]
    rcases List.mem_cons.1 hx with rfl | hx
    · exact .inr (by simp)
    · by_cases hname : y.2.qualified = x.2.qualified
      · refine .inl (.inr (mem_editPlaced_of_valueOf?_eq_none hx ?_))
        rw [valueOf?_without, if_pos hname.symm]
      · simp only [hname, decide_false]
        exact (ih hx).imp_left .inr

/-- **The other way round**: what is in the list after the edits was in it before, and an edit came
to it only as the first of its name. -/
theorem exists_of_mem_editPlaced {pending : List (String × TypeEdit)}
    {xs : List (Place × IndexedType)} {y : Place × IndexedType} (hy : y ∈ editPlaced pending xs) :
    ∃ x ∈ xs, y = x ∨ ∃ edit, xs.find? (·.2.qualified = x.2.qualified) = some x
      ∧ valueOf? x.2.qualified pending = some edit ∧ y = (x.1, x.2.edited edit) := by
  induction xs generalizing pending with
  | nil => simp [editPlaced] at hy
  | cons x rest ih =>
    rcases List.mem_cons.1 hy with rfl | hy
    · refine ⟨x, List.mem_cons_self, ?_⟩
      cases hvalue : valueOf? x.2.qualified pending with
      | none => exact .inl (by simp)
      | some edit => exact .inr ⟨edit, by simp, rfl, rfl⟩
    · obtain ⟨z, hz, rfl | ⟨edit, hfirst, hvalue, rfl⟩⟩ := ih hy
      · exact ⟨y, List.mem_cons_of_mem _ hz, .inl rfl⟩
      · rw [valueOf?_without, Option.ite_none_left_eq_some] at hvalue
        refine ⟨z, List.mem_cons_of_mem _ hz, .inr ⟨edit, ?_, hvalue.2, rfl⟩⟩
        rw [List.find?_cons, decide_eq_false (Ne.symm hvalue.1)]
        exact hfirst

/-! ## Editing a module

The walk of the edits and `editPlaced` ask for the same names in the same order, which is shown by
going along rows. In a namespace there are two rows to go along, its body and what comes after it,
and the body is handed the table first. -/

/-- An edit does not touch the namespaces, so the path after an entry is the same. -/
@[simp] theorem pathAfter_editEntry (path scope : String) (pending : List (String × TypeEdit))
    (e : Entry) : (editEntry path pending e).1.pathAfter scope = e.pathAfter scope := by
  obtain ⟨leading, notes, ⟨name, form, header, ⟨entries, trailing⟩, footer⟩ | t | m | text⟩ := e
  · rfl
  · rw [editEntry]
    split <;> rfl
  · rfl
  · rfl

/-- A type takes the edit of its name out of the table, or the empty edit if there is none. -/
theorem editEntry_type (path leading : String) (notes : List String) (t : TypeDecl)
    {pending : List (String × TypeEdit)} (h : Keyed pending) :
    editEntry path pending ⟨leading, notes, .type t⟩
      = (⟨leading, notes,
          .type (((valueOf? (qualify path t.name) pending).getD .empty).applyTo t)⟩,
        without (qualify path t.name) pending) := by
  rw [editEntry, takePair?_eq _ h]
  cases hvalue : valueOf? (qualify path t.name) pending with
  | none => simp [without_of_not_mem (valueOf?_eq_none_iff.1 hvalue)]
  | some edit => rfl

/-- The names of the types of a row, from the list with places. -/
theorem map_qualified_placedUnder (path : String) (position : Nat) (es : List Entry) :
    (placedUnder path position es).map (·.2.qualified)
      = (typesUnder path es).map IndexedType.qualified := by
  rw [← map_snd_placedUnder path position, List.map_map]
  rfl

/-- **Editing moves nothing**, and each edit goes to the first type of its name. -/
theorem placedUnder_editEntries (path : String) (position : Nat) (es : List Entry)
    {pending : List (String × TypeEdit)} (h : Keyed pending) :
    placedUnder path position (editEntries path pending es).1
        = editPlaced pending (placedUnder path position es)
      ∧ (editEntries path pending es).2
        = withoutAll ((typesUnder path es).map IndexedType.qualified) pending := by
  induction es using row_induction generalizing path position pending with
  | nil => exact ⟨rfl, rfl⟩
  | scope leading notes name form header entries trailing footer rest ihBody ihRest =>
    obtain ⟨hbody, hleft⟩ := ihBody (qualify path name) 0 h
    obtain ⟨hrest, hend⟩ := ihRest (form.pathAfter path (qualify path name)) (position + 1)
      (h.withoutAll ((typesUnder (qualify path name) entries).map IndexedType.qualified))
    constructor
    · have hnames := map_qualified_placedUnder (qualify path name) 0 entries
      simp only [editEntries, editEntry, placedUnder, Entry.placed, Entry.pathAfter, hbody, hleft,
        hrest, editPlaced_append, editPlaced_map, List.map_map, Function.comp_def, hnames]
    · simp only [editEntries, editEntry, Entry.pathAfter, typesUnder, Entry.types,
        List.map_append, withoutAll_append, hleft, hend]
  | type leading notes t rest ih =>
    obtain ⟨hrest, hend⟩ := ih path (position + 1) (h.without (qualify path t.name))
    have hedit := editEntry_type path leading notes t h
    constructor
    · simp only [editEntries, hedit, placedUnder, Entry.placed, Entry.pathAfter, hrest]
      rfl
    · simp only [editEntries, hedit, typesUnder, Entry.types, Entry.pathAfter, hend]
      rfl
  | method leading notes m rest ih => exact ih path (position + 1) h
  | verbatim leading notes text rest ih => exact ih path (position + 1) h

theorem pathAfterRow_editEntries (path scope : String) (pending : List (String × TypeEdit))
    (es : List Entry) :
    pathAfterRow scope (editEntries path pending es).1 = pathAfterRow scope es := by
  induction es generalizing path scope pending with
  | nil => rfl
  | cons e rest ih => rw [editEntries, pathAfterRow, pathAfterRow, pathAfter_editEntry, ih]

theorem closings_editEntry_type (path scope leading : String) (notes : List String) (t : TypeDecl)
    (pending : List (String × TypeEdit)) :
    (editEntry path pending ⟨leading, notes, .type t⟩).1.closings scope = [] := by
  rw [editEntry]
  split <;> rfl

/-- The block namespaces of a row, with the paths at their ends, are as they were. -/
theorem closingsUnder_editEntries (path scope : String) (pending : List (String × TypeEdit))
    (es : List Entry) :
    closingsUnder scope (editEntries path pending es).1 = closingsUnder scope es := by
  induction es using row_induction generalizing path scope pending with
  | nil => rfl
  | scope _ _ name form _ entries _ _ rest ihBody ihRest =>
    simp only [editEntries, editEntry, closingsUnder, Entry.closings, ihBody, ihRest,
      pathAfterRow_editEntries, Entry.pathAfter]
  | type leading notes t rest ih =>
    simp only [editEntries, closingsUnder, closings_editEntry_type, pathAfter_editEntry, ih]
    rfl
  | method leading notes m rest ih => exact ih path scope pending
  | verbatim leading notes text rest ih => exact ih path scope pending

/-! ## Inserting into a module

At the closing of a block namespace the walk asks for the group of its path, and it asks for no
other. A namespace in file form has no closing of its own in this sense: what would go to its end
goes to the end of the row that it stands in. -/

/-- What a namespace takes of the groups at the end of its body. -/
def ScopeForm.takes (form : ScopeForm) (path : String) (groups : InsertionGroups) : List Entry :=
  match form with
  | .file => []
  | .block => (valueOf? path groups).getD []

/-- The groups that a namespace leaves. -/
def ScopeForm.leaves (form : ScopeForm) (path : String) (groups : InsertionGroups) :
    InsertionGroups :=
  match form with
  | .file => groups
  | .block => without path groups

theorem Keyed.leaves {groups : InsertionGroups} (h : Keyed groups) (form : ScopeForm)
    (path : String) : Keyed (form.leaves path groups) := by
  cases form with
  | file => exact h
  | block => exact h.without path

/-- A body with the group of its path at the end, and the groups that are left. -/
theorem insertInto_eq (form : ScopeForm) (path : String) (entries : List Entry)
    {groups : InsertionGroups} (h : Keyed groups) :
    insertInto form path entries groups
      = (entries ++ form.takes path groups, form.leaves path groups) := by
  cases form with
  | file => simp [insertInto, ScopeForm.takes, ScopeForm.leaves]
  | block =>
    rw [insertInto, takePair?_eq _ h, ScopeForm.takes, ScopeForm.leaves]
    cases hvalue : valueOf? path groups with
    | none => simp [without_of_not_mem (valueOf?_eq_none_iff.1 hvalue)]
    | some run => simp

/-- What is put into the body of a namespace does not change its name. -/
@[simp] theorem pathAfter_insertEntry (path scope : String) (groups : InsertionGroups)
    (e : Entry) : (insertEntry path groups e).1.pathAfter scope = e.pathAfter scope := by
  obtain ⟨leading, notes, ⟨name, form, header, ⟨entries, trailing⟩, footer⟩ | t | m | text⟩ := e <;>
    rfl

theorem pathAfterRow_insertEntries (path scope : String) (groups : InsertionGroups)
    (es : List Entry) :
    pathAfterRow scope (insertEntries path groups es).1 = pathAfterRow scope es := by
  induction es generalizing path scope groups with
  | nil => rfl
  | cons e rest ih => rw [insertEntries, pathAfterRow, pathAfterRow, pathAfter_insertEntry, ih]

/-- The groups for which a row has no block namespace are left. -/
theorem left_insertEntries (path : String) (es : List Entry) {groups : InsertionGroups}
    (h : Keyed groups) :
    (insertEntries path groups es).2
      = withoutAll ((closingsUnder path es).map Prod.fst) groups := by
  induction es using row_induction generalizing path groups with
  | nil => rfl
  | scope _ _ name form _ entries _ _ rest ihBody ihRest =>
    -- Namespaces further in are closed first, then this one, and then those in the rest of the row.
    have hinner := h.withoutAll ((closingsUnder (qualify path name) entries).map Prod.fst)
    simp only [insertEntries, insertEntry, ihBody _ h, insertInto_eq _ _ _ hinner, Entry.pathAfter,
      closingsUnder, Entry.closings, List.map_append, withoutAll_append]
    have hrest := ihRest (form.pathAfter path (qualify path name))
      (hinner.leaves form (qualify path name))
    cases form with
    | file => exact hrest
    | block => exact hrest
  | type leading notes t rest ih => exact ih path h
  | method leading notes m rest ih => exact ih path h
  | verbatim leading notes text rest ih => exact ih path h

theorem Keyed.left_insertEntries {groups : InsertionGroups} (h : Keyed groups) (path : String)
    (es : List Entry) : Keyed (insertEntries path groups es).2 := by
  rw [ModuleMerge.left_insertEntries path es h]
  exact h.withoutAll _

/-! ## What an entry leaves

The same for one entry, as a row of its own. Later proofs go along rows entry by entry with both
tables in hand, and this is what they hand on. -/

theorem left_editEntry (path : String) (e : Entry) {pending : List (String × TypeEdit)}
    (h : Keyed pending) :
    (editEntry path pending e).2
      = withoutAll ((typesUnder path [e]).map IndexedType.qualified) pending :=
  (placedUnder_editEntries path 0 [e] h).2

theorem left_insertEntry (path : String) (e : Entry) {groups : InsertionGroups}
    (h : Keyed groups) :
    (insertEntry path groups e).2 = withoutAll ((closingsUnder path [e]).map Prod.fst) groups :=
  left_insertEntries path [e] h

theorem Keyed.left_editEntry {pending : List (String × TypeEdit)} (h : Keyed pending)
    (path : String) (e : Entry) : Keyed (editEntry path pending e).2 := by
  rw [ModuleMerge.left_editEntry path e h]
  exact h.withoutAll _

theorem Keyed.left_insertEntry {groups : InsertionGroups} (h : Keyed groups) (path : String)
    (e : Entry) : Keyed (insertEntry path groups e).2 :=
  h.left_insertEntries path [e]

/-- Edits do not change which groups are taken. -/
theorem left_insertEntry_editEntry (path : String) (pending : List (String × TypeEdit))
    (e : Entry) {groups : InsertionGroups} (h : Keyed groups) :
    (insertEntry path groups (editEntry path pending e).1).2 = (insertEntry path groups e).2 := by
  have hclosings : closingsUnder path [(editEntry path pending e).1] = closingsUnder path [e] :=
    closingsUnder_editEntries path path pending [e]
  rw [left_insertEntry _ _ h, left_insertEntry _ _ h, hclosings]

/-- So the groups that are left over can be found in the module as it was. -/
theorem left_insertEntries_editEntries (path : String) (pending : List (String × TypeEdit))
    (es : List Entry) {groups : InsertionGroups} (h : Keyed groups) :
    (insertEntries path groups (editEntries path pending es).1).2
      = (insertEntries path groups es).2 := by
  rw [left_insertEntries _ _ h, left_insertEntries _ _ h, closingsUnder_editEntries]

/-! ## Where insertions stand -/

/-- **Inserting moves nothing.** New entries stand behind the old ones of their row, so every old
one keeps the number of entries before it. -/
theorem mem_placedUnder_insertEntries (path : String) (position : Nat) (es : List Entry)
    {groups : InsertionGroups} (h : Keyed groups) {x : Place × IndexedType}
    (hx : x ∈ placedUnder path position es) :
    x ∈ placedUnder path position (insertEntries path groups es).1 := by
  induction es using row_induction generalizing path position groups x with
  | nil => exact hx
  | scope leading notes name form header entries trailing footer rest ihBody ihRest =>
    have hinner := h.left_insertEntries (qualify path name) entries
    simp only [insertEntries, insertEntry, insertInto_eq _ _ _ hinner, placedUnder, Entry.placed,
      Entry.pathAfter, List.mem_append, List.mem_map] at hx ⊢
    rcases hx with ⟨y, hy, rfl⟩ | hx
    · refine .inl ⟨y, ?_, rfl⟩
      rw [placedUnder_append]
      exact List.mem_append_left _ (ihBody _ 0 h hy)
    · exact .inr (ihRest _ _ (hinner.leaves form _) hx)
  | type leading notes t rest ih =>
    exact (List.mem_append.1 hx).elim (List.mem_append_left _)
      fun hrest => List.mem_append_right _ (ih path (position + 1) h hrest)
  | method leading notes m rest ih => exact ih path (position + 1) h hx
  | verbatim leading notes text rest ih => exact ih path (position + 1) h hx

/-- The group of a path is put at the end of the first block namespace with the path. Namespaces
come in the order of their closings, for that is where the walk asks, so one further in is before
the one that it stands in. -/
theorem exists_placed_of_closing (path : String) (position : Nat) (es : List Entry)
    {groups : InsertionGroups} (h : Keyed groups) {name inner : String} {run : List Entry}
    (hrun : valueOf? name groups = some run) (htypes : ∀ e ∈ run, ∃ t, e.decl = .type t)
    (hinner : valueOf? name (closingsUnder path es) = some inner)
    {leading : String} {notes : List String} {t : TypeDecl}
    (he : ⟨leading, notes, .type t⟩ ∈ run) :
    ∃ place, (place, ⟨inner, leading, notes, t⟩)
      ∈ placedUnder path position (insertEntries path groups es).1 := by
  induction es using row_induction generalizing path position groups with
  | nil => simp [closingsUnder] at hinner
  | scope _ _ scopeName form _ entries _ _ rest ihBody ihRest =>
    have hleft := left_insertEntries (qualify path scopeName) entries h
    have hkeyed := h.left_insertEntries (qualify path scopeName) entries
    simp only [insertEntries, insertEntry, insertInto_eq _ _ _ hkeyed, placedUnder, Entry.placed,
      Entry.pathAfter, List.mem_append, List.mem_map]
    simp only [closingsUnder, Entry.closings, Entry.pathAfter, valueOf?_append] at hinner
    cases hbody : valueOf? name (closingsUnder (qualify path scopeName) entries) with
    | some found =>
      -- The group goes into the body of this namespace, to a namespace further in.
      obtain rfl : found = inner := by simpa [hbody] using hinner
      obtain ⟨place, hplace⟩ := ihBody (qualify path scopeName) 0 h hrun hbody
      refine ⟨position :: place, .inl ⟨(place, _), ?_, rfl⟩⟩
      rw [placedUnder_append]
      exact List.mem_append_left _ hplace
    | none =>
      have hstill : valueOf? name (insertEntries (qualify path scopeName) groups entries).2
          = some run := by
        rw [hleft, valueOf?_withoutAll, if_neg (valueOf?_eq_none_iff.1 hbody), hrun]
      by_cases hhere : form = .block ∧ qualify path scopeName = name
      · -- The group goes to the end of this namespace.
        obtain ⟨rfl, rfl⟩ := hhere
        obtain rfl : pathAfterRow (qualify path scopeName) entries = inner := by
          simpa [hbody] using hinner
        obtain ⟨place, hplace⟩ := mem_placedUnder_of_types
          (pathAfterRow (qualify path scopeName) entries)
          (0 + (insertEntries (qualify path scopeName) groups entries).1.length) htypes he
        refine ⟨position :: place, .inl ⟨(place, _), ?_, rfl⟩⟩
        rw [placedUnder_append, pathAfterRow_insertEntries, ScopeForm.takes, hstill]
        exact List.mem_append_right _ hplace
      · -- The group goes past this namespace.
        have hpast : valueOf? name (form.leaves (qualify path scopeName)
            (insertEntries (qualify path scopeName) groups entries).2) = some run := by
          cases form with
          | file => exact hstill
          | block =>
            have hne : name ≠ qualify path scopeName := fun heq => hhere ⟨rfl, heq.symm⟩
            rw [ScopeForm.leaves, valueOf?_without, if_neg hne, hstill]
        have hrest : valueOf? name
            (closingsUnder (form.pathAfter path (qualify path scopeName)) rest) = some inner := by
          cases form with
          | file => simpa [hbody] using hinner
          | block =>
            have hne : qualify path scopeName ≠ name := fun heq => hhere ⟨rfl, heq⟩
            simpa [hbody, hne] using hinner
        obtain ⟨place, hplace⟩ := ihRest _ (position + 1) (hkeyed.leaves form _) hpast hrest
        exact ⟨place, .inr hplace⟩
  | type leading' notes' t' rest ih =>
    obtain ⟨place, hplace⟩ := ih path (position + 1) h hrun hinner
    exact ⟨place, List.mem_append_right _ hplace⟩
  | method leading' notes' m rest ih => exact ih path (position + 1) h hrun hinner
  | verbatim leading' notes' text rest ih => exact ih path (position + 1) h hrun hinner

/-! ## The end of a module

What was left over comes behind the last entry. There the path is that of the namespaces in file
form of the top row, so bare types are in it whatever they were inserted for, and new namespaces
are too. -/

/-- The path that a type gets which a module puts at its end for a path. -/
def SourceModule.endPath (m : SourceModule) (path : String) : String :=
  if goesToEnd m path then pathAfterRow "" m.body.entries
  else qualify (pathAfterRow "" m.body.entries) path

/-- A group at the end leaves the path as it is for the group behind it, because a new namespace is
in block form. -/
theorem pathAfterRow_endEntries (m : SourceModule) (path : String) {group : String × List Entry}
    (h : ∀ e ∈ group.2, ∃ t, e.decl = .type t) :
    pathAfterRow path (endEntries m group) = path := by
  rw [endEntries]
  split
  · exact pathAfterRow_of_types h
  · rfl

/-- Every type of a group that was left over stands at the end of the module. -/
theorem exists_placed_of_endEntries (m : SourceModule) (position : Nat)
    {groups : InsertionGroups} (htypes : ∀ g ∈ groups, ∀ e ∈ g.2, ∃ t, e.decl = .type t)
    {group : String × List Entry} (hgroup : group ∈ groups)
    {leading : String} {notes : List String} {t : TypeDecl}
    (he : ⟨leading, notes, .type t⟩ ∈ group.2) :
    ∃ place, (place, ⟨m.endPath group.1, leading, notes, t⟩)
      ∈ placedUnder (pathAfterRow "" m.body.entries) position
        (groups.flatMap (endEntries m)) := by
  induction groups generalizing position with
  | nil => simp at hgroup
  | cons g rest ih =>
    rw [List.flatMap_cons, placedUnder_append,
      pathAfterRow_endEntries m _ (htypes g List.mem_cons_self)]
    rcases List.mem_cons.1 hgroup with rfl | hgroup
    · have htypes' := htypes group List.mem_cons_self
      rw [endEntries, SourceModule.endPath]
      split
      · obtain ⟨place, hplace⟩ := mem_placedUnder_of_types
          (pathAfterRow "" m.body.entries) position htypes' he
        exact ⟨place, List.mem_append_left _ hplace⟩
      · obtain ⟨place, hplace⟩ := mem_placedUnder_of_types
          (qualify (pathAfterRow "" m.body.entries) group.1) 0 htypes' he
        refine ⟨position :: place, List.mem_append_left _ ?_⟩
        simpa [placedUnder, newNamespace, Entry.placed] using hplace
    · obtain ⟨place, hplace⟩ := ih (position + (endEntries m g).length)
        (fun g' hg' => htypes g' (List.mem_cons_of_mem _ hg')) hgroup
      exact ⟨place, List.mem_append_right _ hplace⟩

/-! ## The merged module -/

/-- The path under which the merged module has a type that was inserted for a path. -/
def SourceModule.landingPath (m : SourceModule) (path : String) : String :=
  (valueOf? path (closingsUnder "" m.body.entries)).getD (m.endPath path)

/-- Whatever stands in the first input stands in the merged module after its edit. -/
theorem mem_placedTypes_compose (m : SourceModule) {plan : EditPlan} (h : Keyed plan.edits)
    {x : Place × IndexedType} (hx : x ∈ editPlaced plan.edits m.placedTypes) :
    x ∈ (m.compose plan).placedTypes := by
  rw [SourceModule.placedTypes, SourceModule.compose, placedUnder_append]
  refine List.mem_append_left _ (mem_placedUnder_insertEntries _ _ _ (keyed_groupInsertions _) ?_)
  rw [(placedUnder_editEntries "" 0 m.body.entries h).1]
  exact hx

/-- **Every inserted type is in the merged module**, under its path's landing path. Either the walk
meets a block namespace with the path and takes the group there, or the group is left over and goes
to the end; it cannot get lost in between, because the walk takes out no other path. -/
theorem exists_placed_of_insertion (m : SourceModule) (plan : EditPlan)
    (htypes : ∀ i ∈ plan.insertions, ∃ t, i.entry.decl = .type t)
    {path leading : String} {notes : List String} {t : TypeDecl}
    (hi : ⟨path, ⟨leading, notes, .type t⟩⟩ ∈ plan.insertions) :
    ∃ place, (place, ⟨m.landingPath path, leading, notes, t⟩) ∈ (m.compose plan).placedTypes := by
  have hkeyed := keyed_groupInsertions plan.insertions
  obtain ⟨run, hrun, he⟩ := exists_group_of_mem hi
  have hgroups : ∀ g ∈ groupInsertions plan.insertions, ∀ e ∈ g.2, ∃ t, e.decl = .type t := by
    rintro ⟨name, entries⟩ hg e hmem
    obtain ⟨i, hi, -, rfl⟩ := mem_insertions_of_group hg hmem
    exact htypes i hi
  rw [SourceModule.placedTypes, SourceModule.compose, placedUnder_append,
    SourceModule.landingPath]
  rw [← closingsUnder_editEntries "" "" plan.edits]
  cases hinner : valueOf? path
      (closingsUnder "" (editEntries "" plan.edits m.body.entries).1) with
  | some inner =>
    obtain ⟨place, hplace⟩ := exists_placed_of_closing "" 0 _ hkeyed hrun
      (hgroups _ (mem_of_valueOf? hrun)) hinner he
    exact ⟨place, List.mem_append_left _ hplace⟩
  | none =>
    -- No namespace of the path is closed on the way, so its group is left for the end.
    have hleft := left_insertEntries "" (editEntries "" plan.edits m.body.entries).1 hkeyed
    have hstill : valueOf? path (insertEntries "" (groupInsertions plan.insertions)
        (editEntries "" plan.edits m.body.entries).1).2 = some run := by
      rw [hleft, valueOf?_withoutAll, if_neg (valueOf?_eq_none_iff.1 hinner), hrun]
    have hends : ∀ g ∈ (insertEntries "" (groupInsertions plan.insertions)
        (editEntries "" plan.edits m.body.entries).1).2, ∀ e ∈ g.2, ∃ t, e.decl = .type t :=
      fun g hg => hgroups g (mem_of_mem_withoutAll (hleft ▸ hg))
    obtain ⟨place, hplace⟩ := exists_placed_of_endEntries m _ hends (mem_of_valueOf? hstill) he
    refine ⟨place, List.mem_append_right _ ?_⟩
    rw [pathAfterRow_insertEntries, pathAfterRow_editEntries]
    exact hplace

/-! ## The merge

The merge composes the first input with a plan whose edits have one name each, so all of the above
holds of it. The later proofs use these three statements: what becomes of the first type of a name,
of any other type, and of a type that only the second input has. -/

section

variable (tag : String) (resolutions : Option Resolutions) (first second : SourceModule)

/-- The edit that the merge applies to the first input's first type with a name. -/
def mergeEdit (name : String) : TypeEdit :=
  (Resolver.resolve ⟨tag, resolutions⟩
    (matchModules (Index.ofModule first) (Index.ofModule second)).1).edit name

/-- The first type of a name is edited where it stands. -/
theorem mem_placedTypes_merge_of_firstOf? {name : String} {x : Place × IndexedType}
    (hx : first.firstOf? name = some x) :
    (x.1, x.2.edited (mergeEdit tag resolutions first second name))
      ∈ (merge tag resolutions first second).result.placedTypes :=
  mem_placedTypes_compose first (Resolver.keyed_edits_resolve ⟨tag, resolutions⟩ _ _)
    (mem_editPlaced_of_find? hx)

/-- Every other type stays as it is. -/
theorem mem_placedTypes_merge_or_firstOf? {x : Place × IndexedType} (hx : x ∈ first.placedTypes) :
    x ∈ (merge tag resolutions first second).result.placedTypes
      ∨ first.firstOf? x.2.qualified = some x :=
  (mem_editPlaced_or_find? hx).imp_left
    (mem_placedTypes_compose first (Resolver.keyed_edits_resolve ⟨tag, resolutions⟩ _ _))

/-- A type that only the second input has is in the merged module, with a note on it. -/
theorem exists_placed_merge_of_added {theirs : IndexedType} {id : Nat}
    (h : (Item.type theirs, id)
      ∈ numberedItems (Index.ofModule first) (Index.ofModule second)) :
    ∃ place, (place, (⟨first.landingPath theirs.path, theirs.leading,
        theirs.annotations ++ [note tag id .addedFromSecond], theirs.type⟩ : IndexedType))
      ∈ (merge tag resolutions first second).result.placedTypes := by
  refine exists_placed_of_insertion first _ ?_ ?_
  · intro i hi
    obtain ⟨t, -, -, n, rfl⟩ := Resolver.exists_type_of_mem_insertions ⟨tag, resolutions⟩ hi
    exact ⟨t.type, rfl⟩
  · rw [Resolver.insertions_resolve]
    exact List.mem_filterMap.2 ⟨_, h, rfl⟩

end

end ModuleMerge
