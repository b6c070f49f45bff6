import ModuleMerge.Proofs.CarriedLines
import ModuleMerge.Proofs.Wording

/-!
# The tag of a pass

Every note of a pass starts with its tag, and a user may choose any text as the tag. Whether the tag
gets anywhere but into the notes is settled here: with all notes taken off, the merged module is the
same for every tag.

A note is a text, and notes are on entries in a tree, so as long as it is not printed a tag can do
no harm. It is clear from the code that the tag is only used to make notes. To prove it, one has to
see that no step of the merge looks at the notes on an entry: that edits drop and append by
positions, that namespaces take groups by their paths, and that what is carried from one entry to
the next are leading texts.

The proof goes through the composer's description as changes at places. At each level the notes are
taken off both sides, and what is left is the same. Tables of values need a law for this, since they
hold entries with notes: to take the notes off all values of a table and hand them out is to hand
them out and take the notes off then.

* `Entry.withoutNotes` and `SourceModule.withoutNotes` take the notes off, at every depth.
* `TypeEdit.SameButNotes` and `EditPlan.SameButNotes` say that two edits and two plans differ in
  their notes at most, and `withoutNotes_compose` carries it to the composed module.
* `withoutNotes_merge` is the main result.
-/

set_option autoImplicit false

namespace ModuleMerge

/-! ## Taking notes off

For rows this is a map, since an entry without notes does not depend on its neighbours. -/

/-- An entry without notes on it or inside it. -/
def Entry.withoutNotes (e : Entry) : Entry :=
  ⟨e.leading, [], e.decl.withNotes fun _ => []⟩

/-- A row of entries without notes on them or inside them. -/
def rowWithoutNotes (es : List Entry) : List Entry :=
  es.map Entry.withoutNotes

/-- A module without notes. -/
def SourceModule.withoutNotes (m : SourceModule) : SourceModule :=
  m.withNotes fun _ => []

/-- To replace all notes by none is to take them off. -/
theorem rowWithNotes_nil (es : List Entry) :
    rowWithNotes (fun _ => []) es = rowWithoutNotes es := by
  induction es with
  | nil => rfl
  | cons e rest ih =>
    obtain ⟨leading, notes, decl⟩ := e
    rw [rowWithNotes, ih]
    rfl

theorem rowWithoutNotes_cons (e : Entry) (rest : List Entry) :
    rowWithoutNotes (e :: rest) = e.withoutNotes :: rowWithoutNotes rest := rfl

theorem rowWithoutNotes_append (xs ys : List Entry) :
    rowWithoutNotes (xs ++ ys) = rowWithoutNotes xs ++ rowWithoutNotes ys :=
  List.map_append

@[simp] theorem withoutNotes_noted (edit : TypeEdit) (e : Entry) (position : Nat) :
    (edit.noted e position).withoutNotes = e.withoutNotes := by
  rw [TypeEdit.noted]
  split
  · rfl
  · rfl

theorem withoutNotes_slotEntry (slot : List Entry × Entry) :
    (slotEntry slot).withoutNotes = slotEntry (slot.1, slot.2.withoutNotes) := rfl

theorem withoutNotes_scope (leading : String) (notes : List String) (name : String)
    (form : ScopeForm) (header trailing footer : String) (entries : List Entry) :
    Entry.withoutNotes ⟨leading, notes, .scope ⟨name, form, header, ⟨entries, trailing⟩, footer⟩⟩
      = ⟨leading, [],
          .scope ⟨name, form, header, ⟨rowWithoutNotes entries, trailing⟩, footer⟩⟩ := by
  rw [Entry.withoutNotes, Decl.withNotes, rowWithNotes_nil]

theorem withoutNotes_type (leading : String) (notes : List String) (t : TypeDecl) :
    Entry.withoutNotes ⟨leading, notes, .type t⟩
      = ⟨leading, [],
          .type { t with body := ⟨rowWithoutNotes t.body.entries, t.body.trailing⟩ }⟩ := by
  obtain ⟨name, header, ⟨entries, trailing⟩, footer⟩ := t
  rw [Entry.withoutNotes, Decl.withNotes, rowWithNotes_nil]

/-! ## Edits up to notes

Two fates may be alike though they are not equal: both leave the entry, with different notes on it,
or one without any. So of a fate only whether it drops the entry is compared. -/

/-- Whether a fate is to be dropped. -/
def Fate.drops : Fate → Bool
  | drop => true
  | annotate _ => false

namespace TypeEdit

theorem drops_eq (edit : TypeEdit) (position : Nat) :
    edit.drops position = ((edit.fate? position).map Fate.drops).getD false := by
  rw [drops]
  cases edit.fate? position with
  | none => rfl
  | some fate => cases fate <;> rfl

/-- Two edits drop the same members and append the same, but for notes. -/
structure SameButNotes (edit edit' : TypeEdit) : Prop where
  drops : edit.drops = edit'.drops
  appended : rowWithoutNotes edit.appended = rowWithoutNotes edit'.appended

variable {edit edit' : TypeEdit}

/-- The same entries are dropped directly before a place. -/
theorem SameButNotes.droppedBefore (h : edit.SameButNotes edit') (entries : List Entry)
    (position : Nat) :
    edit.droppedBefore entries position = edit'.droppedBefore entries position := by
  rw [TypeEdit.droppedBefore, TypeEdit.droppedBefore, h.drops]

/-- The same entries stay, behind the same lines. -/
theorem SameButNotes.keptSlots (h : edit.SameButNotes edit') (entries : List Entry) :
    rowWithoutNotes ((edit.keptSlots entries).map slotEntry)
      = rowWithoutNotes ((edit'.keptSlots entries).map slotEntry) := by
  simp only [rowWithoutNotes, TypeEdit.keptSlots, List.map_map, h.drops]
  refine List.map_congr_left fun x _ => ?_
  simp only [Function.comp_apply, withoutNotes_slotEntry, withoutNotes_noted,
    h.droppedBefore]

/-- The same entries are appended, behind the same lines, and the same lines are left over. -/
theorem SameButNotes.addedSlots (h : edit.SameButNotes edit') (entries : List Entry) :
    rowWithoutNotes ((edit.addedSlots entries).map slotEntry)
        = rowWithoutNotes ((edit'.addedSlots entries).map slotEntry)
      ∧ edit.leftOver entries = edit'.leftOver entries := by
  have happended := h.appended
  rw [TypeEdit.addedSlots, TypeEdit.addedSlots, TypeEdit.leftOver, TypeEdit.leftOver,
    h.droppedBefore]
  -- Either both append nothing, or both begin with the same entry, up to its notes.
  cases hxs : edit.appended with
  | nil =>
    cases hys : edit'.appended with
    | nil => exact ⟨rfl, rfl⟩
    | cons y ys => simp [hxs, hys, rowWithoutNotes] at happended
  | cons x xs =>
    cases hys : edit'.appended with
    | nil => simp [hxs, hys, rowWithoutNotes] at happended
    | cons y ys =>
      rw [hxs, hys] at happended
      obtain ⟨hfirst, hrest⟩ := List.cons.inj happended
      refine ⟨?_, rfl⟩
      simp only [rowWithoutNotes, List.map_cons, List.map_map, Function.comp_def,
        withoutNotes_slotEntry, hfirst, slotEntry_nil]
      exact congrArg _ hrest

/-- **Edits up to notes** make types up to notes. -/
theorem SameButNotes.applyTo (h : edit.SameButNotes edit') (leading : String)
    (notes : List String) (t : TypeDecl) :
    Entry.withoutNotes ⟨leading, notes, .type (edit.applyTo t)⟩
      = Entry.withoutNotes ⟨leading, notes, .type (edit'.applyTo t)⟩ := by
  obtain ⟨hadded, hleft⟩ := h.addedSlots t.body.entries
  rw [withoutNotes_type, withoutNotes_type, applyTo_eq, applyTo_eq]
  simp only [List.map_append, rowWithoutNotes_append, h.keptSlots, hadded, hleft]

end TypeEdit

/-! ## Rows up to notes

By induction on the row, which is the same for both sides; all that is different is what changes. -/

/-- **Changes up to notes** make rows up to notes. -/
theorem withoutNotes_changedRow {c c' : Changes}
    (hedit : ∀ place, ((c.edit? place).getD .empty).SameButNotes ((c'.edit? place).getD .empty))
    (hrun : ∀ place, rowWithoutNotes ((c.run? place).getD [])
      = rowWithoutNotes ((c'.run? place).getD []))
    (position : Nat) (es : List Entry) :
    rowWithoutNotes (changedRow c position es) = rowWithoutNotes (changedRow c' position es) := by
  induction es using row_induction generalizing c c' position with
  | nil => rfl
  | scope leading notes name form header entries trailing footer rest ihBody ihRest =>
    have hbody : rowWithoutNotes (changedRow (c.under position) 0 entries)
        = rowWithoutNotes (changedRow (c'.under position) 0 entries) :=
      ihBody (fun place => hedit (position :: place)) (fun place => hrun (position :: place)) 0
    have hend : rowWithoutNotes (form.gets ((c.under position).run? []))
        = rowWithoutNotes (form.gets ((c'.under position).run? [])) := by
      cases form with
      | file => rfl
      | block => exact hrun [position]
    simp only [changedRow, Entry.changed, rowWithoutNotes_cons, withoutNotes_scope,
      rowWithoutNotes_append, hbody, hend, ihRest hedit hrun]
  | type leading notes t rest ih =>
    have hhead := (hedit [position]).applyTo leading notes t
    simp only [changedRow, Entry.changed, Changes.under, rowWithoutNotes_cons, hhead,
      ih hedit hrun]
  | method leading notes m rest ih =>
    simp only [changedRow, Entry.changed, rowWithoutNotes_cons, ih hedit hrun]
  | verbatim leading notes text rest ih =>
    simp only [changedRow, Entry.changed, rowWithoutNotes_cons, ih hedit hrun]

/-! ## Tables up to notes

Nothing in this section is about notes until the last lemmas: a table whose values are all changed
by a function is grouped, handed out and looked up as before. -/

section

variable {κ ι α β : Type} [DecidableEq κ] (f : α → β)

theorem valueOf?_map (key : κ) (pairs : List (κ × α)) :
    valueOf? key (pairs.map fun pair => (pair.1, f pair.2)) = (valueOf? key pairs).map f := by
  rw [valueOf?, valueOf?, List.find?_map, Option.map_map, Option.map_map]
  rfl

theorem withoutAll_map (keys : List κ) (pairs : List (κ × α)) :
    withoutAll keys (pairs.map fun pair => (pair.1, f pair.2))
      = (withoutAll keys pairs).map fun pair => (pair.1, f pair.2) := by
  rw [withoutAll_eq_filter, withoutAll_eq_filter, List.filter_map]
  rfl

/-- Values that are handed out can be looked at before or after. -/
theorem handOut_map_value (pending : List (String × α)) (xs : List (ι × String)) :
    handOut (pending.map fun pair => (pair.1, f pair.2)) xs
      = (handOut pending xs).map fun x => (x.1, f x.2) := by
  induction xs generalizing pending with
  | nil => rfl
  | cons x rest ih =>
    have hwithout : without x.2 (pending.map fun pair => (pair.1, f pair.2))
        = (without x.2 pending).map fun pair => (pair.1, f pair.2) :=
      withoutAll_map f [x.2] pending
    rw [handOut, handOut, hwithout, ih, valueOf?_map]
    cases valueOf? x.2 pending <;> rfl

end

/-- An insertion of an entry without notes. -/
def Insertion.withoutNotes (i : Insertion) : Insertion :=
  ⟨i.path, i.entry.withoutNotes⟩

/-- Insertions are grouped by their paths, and entries keep their order within a group. -/
theorem groupInsertions_withoutNotes (insertions : List Insertion) :
    groupInsertions (insertions.map Insertion.withoutNotes)
      = (groupInsertions insertions).map fun group => (group.1, rowWithoutNotes group.2) := by
  have hpath : Insertion.path ∘ Insertion.withoutNotes = Insertion.path := rfl
  rw [groupInsertions_eq, groupInsertions_eq, List.map_map, List.map_map, hpath]
  refine List.map_congr_left fun path _ => ?_
  simp only [Function.comp_apply, rowWithoutNotes, List.map_map, List.filter_map]
  rfl

/-- What a group adds to the end of a module. -/
theorem withoutNotes_endEntries (m : SourceModule) (group : String × List Entry) :
    rowWithoutNotes (endEntries m group) = endEntries m (group.1, rowWithoutNotes group.2) := by
  rw [endEntries, endEntries]
  split
  · rfl
  · rw [newNamespace, rowWithoutNotes_cons, withoutNotes_scope]
    rfl

/-! ## Modules up to notes -/

/-- Two plans differ in the notes that they bring at most. -/
structure EditPlan.SameButNotes (plan plan' : EditPlan) : Prop where
  edit : ∀ name, (plan.edit name).SameButNotes (plan'.edit name)
  insertions : plan.insertions.map Insertion.withoutNotes
    = plan'.insertions.map Insertion.withoutNotes

section

variable {plan plan' : EditPlan}

theorem EditPlan.SameButNotes.groups (h : plan.SameButNotes plan') :
    (groupInsertions plan.insertions).map (fun group => (group.1, rowWithoutNotes group.2))
      = (groupInsertions plan'.insertions).map fun group =>
        (group.1, rowWithoutNotes group.2) := by
  rw [← groupInsertions_withoutNotes, h.insertions, groupInsertions_withoutNotes]

/-- The same edits and the same runs of new types come to every place. -/
theorem EditPlan.SameButNotes.changes (h : plan.SameButNotes plan') (m : SourceModule)
    (place : Place) :
    (((plan.changes m).edit? place).getD .empty).SameButNotes
        (((plan'.changes m).edit? place).getD .empty)
      ∧ rowWithoutNotes (((plan.changes m).run? place).getD [])
        = rowWithoutNotes (((plan'.changes m).run? place).getD []) := by
  constructor
  · rcases m.first_or_left place with ⟨name, _, -, hedited⟩ | hleft
    · rw [hedited, hedited]
      exact h.edit name
    · rw [hleft, hleft]
      exact ⟨rfl, rfl⟩
  · have hrun : ∀ groups : InsertionGroups,
        rowWithoutNotes ((valueOf? place (handOut groups m.blocks)).getD [])
          = (valueOf? place (handOut (groups.map fun group => (group.1, rowWithoutNotes group.2))
              m.blocks)).getD [] := by
      intro groups
      rw [handOut_map_value, valueOf?_map]
      cases valueOf? place (handOut groups m.blocks) <;> rfl
    simp only [EditPlan.changes, hrun, h.groups]

/-- **Plans up to notes** make modules up to notes. -/
theorem withoutNotes_compose (m : SourceModule) (hkeyed : Keyed plan.edits)
    (hkeyed' : Keyed plan'.edits) (h : plan.SameButNotes plan') :
    (m.compose plan).withoutNotes = (m.compose plan').withoutNotes := by
  have hrow := withoutNotes_changedRow (fun place => (h.changes m place).1)
    (fun place => (h.changes m place).2) 0 m.body.entries
  have hending : ∀ groups : InsertionGroups,
      rowWithoutNotes ((withoutAll (m.blocks.map Prod.snd) groups).flatMap (endEntries m))
        = (withoutAll (m.blocks.map Prod.snd)
            (groups.map fun group => (group.1, rowWithoutNotes group.2))).flatMap
              (endEntries m) := by
    intro groups
    rw [withoutAll_map, List.flatMap_map, rowWithoutNotes, List.map_flatMap]
    exact List.flatMap_congr fun group _ => withoutNotes_endEntries m group
  rw [compose_eq m plan hkeyed, compose_eq m plan' hkeyed', SourceModule.withoutNotes,
    SourceModule.withoutNotes, SourceModule.withNotes, SourceModule.withNotes]
  simp only [rowWithNotes_nil, rowWithoutNotes_append, hrow, hending, h.groups]

end

/-! ## Two tags

At last the tag comes in. The verdict on two methods is by the choices and by the bodies, and the
tag is only put into what is noted. -/

namespace Resolver

variable (tag tag' : String) (choices : Option Resolutions) (first second : Index)

/-- A contribution drops the same method of the first input. -/
theorem map_fateAt?_tag (position : Nat) (c : Contribution) :
    (fateAt? ⟨tag, choices⟩ position c).map Fate.drops
      = (fateAt? ⟨tag', choices⟩ position c).map Fate.drops := by
  have hverdict : verdict ⟨tag, choices⟩ = verdict ⟨tag', choices⟩ := rfl
  rw [fateAt?, fateAt?, hverdict]
  cases c.partner with
  | none => rfl
  | some partner =>
    by_cases hposition : partner.position = position
    · simp only [if_pos hposition]
      cases (verdict ⟨tag', choices⟩ c.id partner.method c.second.method).disposition <;> rfl
    · simp only [if_neg hposition]

/-- The tag of a pass is nothing to what it changes. -/
theorem sameButNotes_resolve :
    (resolve ⟨tag, choices⟩ (matchModules first second).1).SameButNotes
      (resolve ⟨tag', choices⟩ (matchModules first second).1) := by
  refine ⟨fun name => ⟨?_, ?_⟩, ?_⟩
  · funext position
    have hfates : Option.map Fate.drops ∘ fateAt? ⟨tag, choices⟩ position
        = Option.map Fate.drops ∘ fateAt? ⟨tag', choices⟩ position :=
      funext fun c => map_fateAt?_tag tag tag' choices position c
    rw [TypeEdit.drops_eq, TypeEdit.drops_eq, fate?_edit_resolve, fate?_edit_resolve,
      List.map_findSome?, List.map_findSome?, hfates]
  · simp only [appended_edit_resolve, rowWithoutNotes, List.map_filterMap]
    refine List.filterMap_congr fun c _ => ?_
    have hprovenance : provenance? ⟨tag, choices⟩ c = provenance? ⟨tag', choices⟩ c := rfl
    rw [taken?, taken?, hprovenance, Option.map_map, Option.map_map]
    rfl
  · rw [insertions_resolve, insertions_resolve, List.map_filterMap, List.map_filterMap]
    refine List.filterMap_congr fun x _ => ?_
    obtain ⟨item, id⟩ := x
    cases item <;> rfl

end Resolver

/-- **The tag gets into notes only**: for any two tags, passes with the same choices over the same
inputs make the same module, up to its notes. -/
theorem withoutNotes_merge (tag tag' : String) (choices : Option Resolutions)
    (first second : SourceModule) :
    (merge tag choices first second).result.withoutNotes
      = (merge tag' choices first second).result.withoutNotes :=
  withoutNotes_compose first (Resolver.keyed_edits_resolve _ _ _)
    (Resolver.keyed_edits_resolve _ _ _) (Resolver.sameButNotes_resolve tag tag' choices _ _)

end ModuleMerge
