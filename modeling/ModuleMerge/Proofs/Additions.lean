import ModuleMerge.Proofs.HandOut
import ModuleMerge.Proofs.Standing

/-!
# Taking additions out again

What the merge adds to the first input can be taken out of the merged module, and the first input
is left. The additions stand in many places — at the end of types, of block namespaces, of the
module, in namespaces made for them — and none of them is lost or stands there twice.

The first input is the sum of its entries and the merged module the sum of more, so one could count.
But counting does not see where an entry stands, and the first input has to be left with everything
in its place. Hence a relation between the two trees, which goes along both at once and says at each
entry whether it stays, is taken out, or is gone into. A namespace that was made for new types is
taken out with all of them, and is itself not counted as an addition.

The proof follows the two walks of the composer. Each hands on what it has not yet placed, so the
induction is over a row with any two tables, and what is recovered is what the tables have lost on
the way (`Recovers`). Only at the end of the module is nothing of the insertions left.

* `TakingOut` takes entries out of a row and says which ones.
* `exists_takingOut_row` takes the additions out of a row of entries, as long as no edit drops a
  member or writes on one.
* `exists_takingOut_ending` does so for a whole module.
-/

set_option autoImplicit false

namespace ModuleMerge

/-! ## Taking out -/

/-- `TakingOut b es taken rest`: taking the entries `taken` out of the row `es` leaves `rest`. They
are taken from the row itself, from the bodies of its namespaces and types, or with a namespace
that was made, with line breaks `b`, to hold nothing else. -/
inductive TakingOut (b : Text.LineBreak) : List Entry → List Entry → List Entry → Prop
  | nil : TakingOut b [] [] []
  /-- The next entry is taken out. -/
  | out {e : Entry} {es taken rest : List Entry} :
      TakingOut b es taken rest → TakingOut b (e :: es) (e :: taken) rest
  /-- The next entry is a namespace that is taken out with all that it holds. -/
  | wrapped {path : String} {run es taken rest : List Entry} :
      run ≠ [] → TakingOut b es taken rest →
      TakingOut b (newNamespace b path run :: es) (run ++ taken) rest
  /-- The next entry stays as it is. -/
  | keep {e : Entry} {es taken rest : List Entry} :
      TakingOut b es taken rest → TakingOut b (e :: es) taken (e :: rest)
  /-- The next entry is a namespace that is taken from. -/
  | scope {leading : String} {notes : List String} {name : String} {form : ScopeForm}
      {header trailing footer : String} {entries entries' inner es taken rest : List Entry} :
      TakingOut b entries inner entries' → TakingOut b es taken rest →
      TakingOut b
        (⟨leading, notes, .scope ⟨name, form, header, ⟨entries, trailing⟩, footer⟩⟩ :: es)
        (inner ++ taken)
        (⟨leading, notes, .scope ⟨name, form, header, ⟨entries', trailing⟩, footer⟩⟩ :: rest)
  /-- The next entry is a type that is taken from. -/
  | type {leading : String} {notes : List String} {name header trailing footer : String}
      {members members' inner es taken rest : List Entry} :
      TakingOut b members inner members' → TakingOut b es taken rest →
      TakingOut b (⟨leading, notes, .type ⟨name, header, ⟨members, trailing⟩, footer⟩⟩ :: es)
        (inner ++ taken)
        (⟨leading, notes, .type ⟨name, header, ⟨members', trailing⟩, footer⟩⟩ :: rest)

namespace TakingOut

variable {b : Text.LineBreak}

theorem nothing (es : List Entry) : TakingOut b es [] es := by
  induction es with
  | nil => exact .nil
  | cons e rest ih => exact .keep ih

theorem everything (es : List Entry) : TakingOut b es es [] := by
  induction es with
  | nil => exact .nil
  | cons e rest ih => exact .out ih

/-- Two rows behind each other, each with what is taken out of it. -/
theorem append {es taken rest es' taken' rest' : List Entry} (h : TakingOut b es taken rest)
    (h' : TakingOut b es' taken' rest') :
    TakingOut b (es ++ es') (taken ++ taken') (rest ++ rest') := by
  induction h with
  | nil => exact h'
  | out _ ih => exact .out ih
  | wrapped hrun _ ih =>
    rw [List.append_assoc]
    exact .wrapped hrun ih
  | keep _ ih => exact .keep ih
  | scope hinner _ _ ih =>
    rw [List.append_assoc]
    exact .scope hinner ih
  | type hinner _ _ ih =>
    rw [List.append_assoc]
    exact .type hinner ih

/-- What stands at the end of a row is taken out last. -/
theorem append_run {es taken rest : List Entry} (h : TakingOut b es taken rest)
    (run : List Entry) : TakingOut b (es ++ run) (taken ++ run) rest := by
  simpa using h.append (everything run)

/-- If nothing is taken out, everything stays. -/
theorem eq_of_nothing {es taken rest : List Entry} (h : TakingOut b es taken rest)
    (hnothing : taken = []) : rest = es := by
  induction h with
  | nil => rfl
  | out => exact absurd hnothing (List.cons_ne_nil _ _)
  | wrapped hrun => exact absurd (List.append_eq_nil_iff.1 hnothing).1 hrun
  | keep _ ih => rw [ih hnothing]
  | scope _ _ ihInner ih =>
    obtain ⟨hinner, htaken⟩ := List.append_eq_nil_iff.1 hnothing
    rw [ihInner hinner, ih htaken]
  | type _ _ ihInner ih =>
    obtain ⟨hinner, htaken⟩ := List.append_eq_nil_iff.1 hnothing
    rw [ihInner hinner, ih htaken]

end TakingOut

/-! ## Rows -/

/-- What a table of edits and one of new types have to add. -/
def additions (pending : List (String × TypeEdit)) (groups : InsertionGroups) : List Entry :=
  (pending.flatMap fun pair => pair.2.appended) ++ groups.flatMap Prod.snd

/-- The edits of a table only append. -/
def OnlyAppends (pending : List (String × TypeEdit)) : Prop :=
  ∀ pair ∈ pending, pair.2.fates = []

/-- What two tables put into a row can be taken out of it, and is what they have lost. -/
def Recovers (b : Text.LineBreak) (path : String) (pending : List (String × TypeEdit))
    (groups : InsertionGroups) (es : List Entry) : Prop :=
  ∃ taken, TakingOut b (insertEntries path groups (editEntries path pending es).1).1 taken es
    ∧ (taken ++ additions (editEntries path pending es).2
        (insertEntries path groups (editEntries path pending es).1).2).Perm
      (additions pending groups)

/-- An edit that only appends puts its entries after those of the body. -/
theorem applyTo_of_no_fates {edit : TypeEdit} (h : edit.fates = []) (t : TypeDecl) :
    edit.applyTo t
      = { t with body := ⟨t.body.entries ++ edit.appended, t.body.trailing⟩ } := by
  rw [TypeEdit.applyTo, survivors_of_no_fates edit h]
  cases hadded : edit.appended with
  | nil => simp [carryInto]
  | cons e rest =>
    obtain ⟨leading, notes, decl⟩ := e
    simp [carryInto, Entry.carrying]

section

variable {b : Text.LineBreak} {path : String} {pending : List (String × TypeEdit)}
  {groups : InsertionGroups}

theorem OnlyAppends.left_editEntry (h : OnlyAppends pending) (hkeyed : Keyed pending)
    (path : String) (e : Entry) : OnlyAppends (editEntry path pending e).2 := by
  rw [ModuleMerge.left_editEntry path e hkeyed]
  exact fun pair hpair => h pair (mem_of_mem_withoutAll hpair)

/-- What a namespace takes and what it leaves is what it was given. -/
theorem ScopeForm.takes_perm (form : ScopeForm) (path : String) (h : Keyed groups) :
    (form.takes path groups ++ (form.leaves path groups).flatMap Prod.snd).Perm
      (groups.flatMap Prod.snd) := by
  cases form with
  | file => rfl
  | block => simpa [takes, leaves] using flatMap_without_perm path id h

/-- An entry with the rest of its row. -/
theorem Recovers.cons {e : Entry} {rest : List Entry} (he : Recovers b path pending groups [e])
    (hrest : Recovers b (e.pathAfter path) (editEntry path pending e).2
      (insertEntry path groups (editEntry path pending e).1).2 rest) :
    Recovers b path pending groups (e :: rest) := by
  obtain ⟨taken, htaken, hperm⟩ := he
  obtain ⟨more, hmore, hperm'⟩ := hrest
  rw [Recovers]
  simp only [editEntries, insertEntries, pathAfter_editEntry] at htaken hperm ⊢
  refine ⟨taken ++ more, htaken.append hmore, ?_⟩
  rw [List.append_assoc]
  exact (hperm'.append_left taken).trans hperm

/-- A type gets what the edit of its name appends. -/
theorem Recovers.type (hpending : Keyed pending) (honly : OnlyAppends pending)
    (leading : String) (notes : List String) (t : TypeDecl) :
    Recovers b path pending groups [⟨leading, notes, .type t⟩] := by
  obtain ⟨name, header, ⟨members, trailing⟩, footer⟩ := t
  have hedit : ((valueOf? (qualify path name) pending).getD .empty).fates = [] := by
    cases hvalue : valueOf? (qualify path name) pending with
    | none => rfl
    | some edit => exact honly _ (mem_of_valueOf? hvalue)
  have happended : ((valueOf? (qualify path name) pending).map TypeEdit.appended).getD []
      = ((valueOf? (qualify path name) pending).getD .empty).appended := by
    cases valueOf? (qualify path name) pending <;> rfl
  have hperm := flatMap_without_perm (qualify path name) TypeEdit.appended hpending
  rw [happended] at hperm
  rw [Recovers]
  simp only [editEntries, insertEntries, editEntry_type _ _ _ _ hpending, insertEntry,
    applyTo_of_no_fates hedit]
  refine ⟨_, .type ((TakingOut.nothing members).append_run _) .nil, ?_⟩
  simpa [additions] using hperm.append_right (groups.flatMap Prod.snd)

/-- A namespace gets what its body gets, and the group of its path if it is in block form. -/
theorem Recovers.scope {leading : String} {notes : List String} {name : String} {form : ScopeForm}
    {header trailing footer : String} {entries : List Entry} (hgroups : Keyed groups)
    (h : Recovers b (qualify path name) pending groups entries) :
    Recovers b path pending groups
      [⟨leading, notes, .scope ⟨name, form, header, ⟨entries, trailing⟩, footer⟩⟩] := by
  obtain ⟨taken, htaken, hperm⟩ := h
  have hkeyed := hgroups.left_insertEntries (qualify path name)
    (editEntries (qualify path name) pending entries).1
  have htakes := form.takes_perm (qualify path name) hkeyed
  rw [Recovers]
  simp only [editEntries, insertEntries, editEntry, insertEntry, insertInto_eq _ _ _ hkeyed]
  refine ⟨_, .scope (htaken.append_run _) .nil, List.Perm.trans ?_ hperm⟩
  -- The group comes after what the body got, and before what is pending.
  rw [List.append_nil, List.append_assoc, additions, additions]
  exact ((List.perm_append_comm_assoc _ _ _).trans (htakes.append_left _)).append_left taken

/-- **What the two tables put into a row can be taken out of it again.** -/
theorem recovers (es : List Entry) (hpending : Keyed pending) (hgroups : Keyed groups)
    (honly : OnlyAppends pending) : Recovers b path pending groups es := by
  induction es using row_induction generalizing path pending groups with
  | nil => exact ⟨[], .nil, .rfl⟩
  | scope leading notes name form header entries trailing footer rest ihBody ihRest =>
    exact .cons (.scope hgroups (ihBody hpending hgroups honly))
      (ihRest (hpending.left_editEntry path _) (hgroups.left_insertEntry path _)
        (honly.left_editEntry hpending path _))
  | type leading notes t rest ih =>
    exact .cons (.type hpending honly leading notes t)
      (ih (hpending.left_editEntry path _) (hgroups.left_insertEntry path _)
        (honly.left_editEntry hpending path _))
  | method leading notes m rest ih =>
    exact .cons ⟨[], .keep .nil, .rfl⟩ (ih hpending hgroups honly)
  | verbatim leading notes text rest ih =>
    exact .cons ⟨[], .keep .nil, .rfl⟩ (ih hpending hgroups honly)

end

/-! ## Modules

A walk with an empty table changes nothing, so edits and insertions may be looked at separately. -/

theorem editEntries_nil (path : String) (es : List Entry) : editEntries path [] es = (es, []) := by
  induction es using row_induction generalizing path with
  | nil => rfl
  | scope _ _ name _ _ entries _ _ rest ihBody ihRest =>
    simp [editEntries, editEntry, ihBody, ihRest]
  | type _ _ t rest ih => simp [editEntries, editEntry, takePair?, ih]
  | method _ _ m rest ih => simp [editEntries, editEntry, ih]
  | verbatim _ _ text rest ih => simp [editEntries, editEntry, ih]

theorem insertEntries_nil (path : String) (es : List Entry) :
    insertEntries path [] es = (es, []) := by
  induction es using row_induction generalizing path with
  | nil => rfl
  | scope _ _ name form _ entries _ _ rest ihBody ihRest =>
    cases form <;> simp [insertEntries, insertEntry, insertInto, takePair?, ihBody, ihRest]
  | type _ _ t rest ih => simp [insertEntries, insertEntry, ih]
  | method _ _ m rest ih => simp [insertEntries, insertEntry, ih]
  | verbatim _ _ text rest ih => simp [insertEntries, insertEntry, ih]

/-- The groups that a module puts at its end are taken out with the namespaces made for them. -/
theorem takingOut_endEntries (m : SourceModule) {groups : InsertionGroups}
    (h : ∀ group ∈ groups, group.2 ≠ []) :
    TakingOut m.lineBreak (groups.flatMap (endEntries m)) (groups.flatMap Prod.snd) [] := by
  induction groups with
  | nil => exact .nil
  | cons group rest ih =>
    have hrest := ih fun g hg => h g (List.mem_cons_of_mem _ hg)
    rw [List.flatMap_cons, List.flatMap_cons, endEntries]
    split
    · exact (TakingOut.everything group.2).append hrest
    · exact .wrapped (h group List.mem_cons_self) hrest

/-- **The additions to a module can be taken out**, every new type once and what the edits append
except for that of edits that found no type. -/
theorem exists_takingOut_ending (m : SourceModule) {pending : List (String × TypeEdit)}
    (hpending : Keyed pending) (honly : OnlyAppends pending) (insertions : List Insertion)
    (es : List Entry) :
    let edited := editEntries "" pending es
    let inserted := insertEntries "" (groupInsertions insertions) edited.1
    ∃ taken, TakingOut m.lineBreak (inserted.1 ++ inserted.2.flatMap (endEntries m)) taken es
      ∧ (taken ++ edited.2.flatMap fun pair => pair.2.appended).Perm
        ((pending.flatMap fun pair => pair.2.appended) ++ insertions.map Insertion.entry) := by
  intro edited inserted
  have hgroups := keyed_groupInsertions insertions
  obtain ⟨taken, htaken, hperm⟩ : Recovers m.lineBreak "" pending (groupInsertions insertions) es :=
    recovers es hpending hgroups honly
  have hleft : inserted.2 = withoutAll ((closingsUnder "" edited.1).map Prod.fst)
      (groupInsertions insertions) := left_insertEntries "" edited.1 hgroups
  have hruns : ∀ group ∈ inserted.2, group.2 ≠ [] := by
    rw [hleft]
    exact fun group hgroup => ne_nil_of_mem_groupInsertions (mem_of_mem_withoutAll hgroup)
  refine ⟨_, by simpa using htaken.append (takingOut_endEntries m hruns), ?_⟩
  rw [List.append_assoc]
  refine ((List.perm_append_comm.append_left taken).trans hperm).trans ?_
  exact (flatMap_groupInsertions_perm insertions).append_left _

theorem entries_compose_of_no_insertions (m : SourceModule) (plan : EditPlan) :
    (m.compose { plan with insertions := [] }).body.entries
      = (editEntries "" plan.edits m.body.entries).1 := by
  simp [SourceModule.compose, groupInsertions, insertEntries_nil]

/-- **Every insertion of a plan stands in the merged module once**: without them it is what the
plan makes of the module if it inserts nothing. -/
theorem exists_takingOut_insertions (m : SourceModule) (plan : EditPlan) :
    ∃ taken, TakingOut m.lineBreak (m.compose plan).body.entries taken
        (m.compose { plan with insertions := [] }).body.entries
      ∧ taken.Perm (plan.insertions.map Insertion.entry) := by
  -- The edits are made already: what is left to take out are the insertions alone.
  have honly : OnlyAppends [] := fun _ hpair => absurd hpair List.not_mem_nil
  obtain ⟨taken, htaken, hperm⟩ := exists_takingOut_ending m keyed_nil honly plan.insertions
    (editEntries "" plan.edits m.body.entries).1
  simp only [editEntries_nil, List.flatMap_nil, List.append_nil, List.nil_append] at htaken hperm
  rw [entries_compose_of_no_insertions]
  exact ⟨taken, htaken, hperm⟩

end ModuleMerge
