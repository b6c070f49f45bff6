import ModuleMerge.Proofs.RegionSplice

/-!
# Regions in the merged text

Merging can tear regions apart. The lines before a dropped member are handed on, but a member of
the second input brings only the lines before it along, and not those that close its region
further down: merging a file with itself is enough (`regionBalanced_merge_torn`).

What can be said for all inputs has two parts. The merged text is balanced exactly if the splice of
the marks is, and the splice is made without any text: the marks of the first input, less those of
what is dropped, with those of what is put in. That is as much as saying which merges tear regions
apart. The second part is a condition on the inputs that is easy to check and does not speak of the
merge: no region reaches over the border of a declaration that may come or go.

For the second part rows of marks are compared by what they do to the level of nesting. Two rows
nest alike if they lead from every level to the same one, so balanced runs may be put in and left
out anywhere. The splice of a row nests like the row, by induction over rows, since at each entry
nothing but balanced runs comes or goes.

A file without any entry is a case of its own. Its whole text is the end of its body, and after the
merge this text stands behind the new types, where its first line is no first line any more.

* `regionBalanced_merge` — the merged text is balanced exactly where the splice of the marks is,
  and it always is if no region reaches over the border of a declaration that comes or goes.
-/

set_option autoImplicit false

namespace ModuleMerge

open Text (RegionMark regionMarks lateMarks WellNested RegionBalanced levelAfter?)

/-! ## Rows of marks that nest alike -/

/-- Two rows of marks lead from every level to the same one. -/
def SameNesting (xs ys : List RegionMark) : Prop :=
  ∀ level, levelAfter? level xs = levelAfter? level ys

namespace SameNesting

theorem refl (xs : List RegionMark) : SameNesting xs xs := fun _ => rfl

theorem append {xs xs' ys ys' : List RegionMark} (hxs : SameNesting xs xs')
    (hys : SameNesting ys ys') : SameNesting (xs ++ ys) (xs' ++ ys') := by
  intro level
  rw [Text.levelAfter?_append, Text.levelAfter?_append, hxs]
  exact congrArg _ (funext hys)

/-- A balanced run leads from every level back to it. -/
theorem of_wellNested {run : List RegionMark} (h : WellNested run) : SameNesting run [] :=
  h.levelAfter?

/-- A balanced run may be left out. -/
theorem wellNested_append {run : List RegionMark} (h : WellNested run) {xs ys : List RegionMark}
    (hxs : SameNesting xs ys) : SameNesting (run ++ xs) ys :=
  (of_wellNested h).append hxs

/-- Rows that nest alike are balanced together. -/
theorem wellNested_iff {xs ys : List RegionMark} (h : SameNesting xs ys) :
    WellNested xs ↔ WellNested ys := by
  rw [WellNested, h, WellNested]

end SameNesting

theorem sameNesting_rowMarks {es : List Entry} (h : ∀ e ∈ es, WellNested e.marks) :
    SameNesting (rowMarks es) [] := by
  induction es with
  | nil => exact .refl _
  | cons e rest ih =>
    rw [rowMarks]
    exact .wellNested_append (h e List.mem_cons_self)
      (ih fun e' he' => h e' (List.mem_cons_of_mem _ he'))

/-! ## Files whose regions keep to their declarations

The two inputs do not have to fulfil the same condition. From the first input members are dropped
without the text before them, which stays, so it is the members themselves that have to be balanced.
From the second input declarations come with the text before them, so that has to be counted in. -/

/-- No region reaches over the border of an entry of a type. -/
def membersBalanced (m : SourceModule) : Bool :=
  (Index.ofModule m).types.all fun t =>
    t.type.body.entries.all fun e => decide (WellNested e.decl.marks)

/-- No region reaches over the border of a type or of a method of a type, the text before them
taken in. -/
def declarationsBalanced (m : SourceModule) : Bool :=
  (Index.ofModule m).types.all fun t =>
    decide (WellNested t.entry.marks)
      && t.type.members.all fun n => decide (WellNested n.entry.marks)

/-- The splice at a type nests like the type, if no entry of it holds a part of a region. -/
theorem sameNesting_keptMarks (edit : TypeEdit) (position : Nat) {es : List Entry}
    (h : ∀ e ∈ es, WellNested e.decl.marks) :
    SameNesting (edit.keptMarks position es) (rowMarks es) := by
  induction es generalizing position with
  | nil => exact .refl _
  | cons e rest ih =>
    have hrest := ih (position + 1) fun e' he' => h e' (List.mem_cons_of_mem _ he')
    rw [TypeEdit.keptMarks, rowMarks, Entry.marks_eq, List.append_assoc]
    refine (SameNesting.refl _).append (.append ?_ hrest)
    split
    · exact fun level => ((h e List.mem_cons_self).levelAfter? level).symm
    · exact .refl _

/-- A type with its edit nests like the type. -/
theorem sameNesting_splicedMarks {edit : TypeEdit} {t : TypeDecl}
    (ht : ∀ e ∈ t.body.entries, WellNested e.decl.marks)
    (hedit : ∀ e ∈ edit.appended, WellNested e.marks) :
    SameNesting (edit.splicedMarks t) (Decl.type t).marks := by
  obtain ⟨name, header, ⟨entries, trailing⟩, footer⟩ := t
  rw [TypeEdit.splicedMarks, Decl.marks]
  refine (SameNesting.refl _).append ((sameNesting_keptMarks edit 0 ht).append ?_)
  exact (sameNesting_rowMarks hedit).append (.refl _)

/-- Nothing that the edits append and the groups hold has a part of a region. -/
structure BalancedChange (pending : List (String × TypeEdit)) (groups : InsertionGroups) :
    Prop where
  edits : ∀ pair ∈ pending, ∀ e ∈ pair.2.appended, WellNested e.marks
  runs : ∀ group ∈ groups, ∀ e ∈ group.2, WellNested e.marks

/-- What an entry leaves of the edits and groups is balanced too. -/
theorem BalancedChange.after {pending : List (String × TypeEdit)} {groups : InsertionGroups}
    (h : BalancedChange pending groups) (hpending : Keyed pending) (hgroups : Keyed groups)
    (path : String) (e : Entry) :
    BalancedChange (editEntry path pending e).2 (insertEntry path groups e).2 := by
  rw [left_editEntry path e hpending, left_insertEntry path e hgroups]
  exact ⟨fun pair hpair => h.edits pair (mem_of_mem_withoutAll hpair),
    fun group hgroup => h.runs group (mem_of_mem_withoutAll hgroup)⟩

theorem wellNested_of_mem_takes {groups : InsertionGroups} {form : ScopeForm} {path : String}
    (h : ∀ group ∈ groups, ∀ e ∈ group.2, WellNested e.marks) :
    ∀ e ∈ form.takes path groups, WellNested e.marks := by
  cases form with
  | file => exact fun e he => absurd he List.not_mem_nil
  | block =>
    rw [ScopeForm.takes]
    cases hrun : valueOf? path groups with
    | none => exact fun e he => absurd he List.not_mem_nil
    | some run => exact h _ (mem_of_valueOf? hrun)

/-- Rows are compared entry by entry, each with the tables that the entry before has left. -/
theorem sameNesting_cons {path : String} {pending : List (String × TypeEdit)}
    {groups : InsertionGroups} {e : Entry} {rest : List Entry}
    (he : SameNesting (e.splicedMarks path pending groups) e.decl.marks)
    (hrest : SameNesting (splicedRow (e.pathAfter path) (editEntry path pending e).2
      (insertEntry path groups e).2 rest) (rowMarks rest)) :
    SameNesting (splicedRow path pending groups (e :: rest)) (rowMarks (e :: rest)) := by
  rw [splicedRow, rowMarks, Entry.marks_eq, List.append_assoc]
  exact (SameNesting.refl _).append (he.append hrest)

/-- The splice nests like the first input, if nothing that comes or goes has a part of a region. -/
theorem sameNesting_splicedRow {es : List Entry} (path : String)
    {pending : List (String × TypeEdit)} {groups : InsertionGroups}
    (hpending : Keyed pending) (hgroups : Keyed groups) (hchange : BalancedChange pending groups)
    (htypes : ∀ t ∈ typesUnder path es, ∀ e ∈ t.type.body.entries, WellNested e.decl.marks) :
    SameNesting (splicedRow path pending groups es) (rowMarks es) := by
  induction es using row_induction generalizing path pending groups with
  | nil => exact .refl _
  | scope leading notes name form header entries trailing footer rest ihBody ihRest =>
    -- The body nests as before, and the group that comes behind it is balanced.
    rw [typesUnder, Entry.types] at htypes
    have hbody := ihBody (qualify path name) hpending hgroups hchange
      fun t ht => htypes t (List.mem_append_left _ ht)
    refine sameNesting_cons ?_ (ihRest _ (hpending.left_editEntry path _)
      (hgroups.left_insertEntry path _) (hchange.after hpending hgroups path _)
      fun t ht => htypes t (List.mem_append_right _ ht))
    have htaken : ∀ e ∈ form.takes (qualify path name)
        (insertEntries (qualify path name) groups entries).2, WellNested e.marks := by
      rw [left_insertEntries _ entries hgroups]
      exact wellNested_of_mem_takes fun group hgroup =>
        hchange.runs group (mem_of_mem_withoutAll hgroup)
    rw [Entry.splicedMarks, Decl.marks, List.append_assoc]
    exact (SameNesting.refl _).append
      (hbody.append ((sameNesting_rowMarks htaken).append (.refl _)))
  | type leading notes t rest ih =>
    rw [typesUnder, Entry.types] at htypes
    refine sameNesting_cons ?_ (ih _ (hpending.left_editEntry path _)
      (hgroups.left_insertEntry path _) (hchange.after hpending hgroups path _)
      fun t' ht' => htypes t' (List.mem_append_right _ ht'))
    refine sameNesting_splicedMarks (htypes _ (List.mem_append_left _ List.mem_cons_self)) ?_
    cases hedit : valueOf? (qualify path t.name) pending with
    | none => exact fun e he => absurd he List.not_mem_nil
    | some edit => exact hchange.edits _ (mem_of_valueOf? hedit)
  | method leading notes m rest ih =>
    exact sameNesting_cons (.refl _) (ih _ hpending hgroups hchange htypes)
  | verbatim leading notes text rest ih =>
    exact sameNesting_cons (.refl _) (ih _ hpending hgroups hchange htypes)

/-- A new namespace has the marks of the types in it and no others, if its path is one line. -/
theorem wellNested_newNamespace (b : Text.LineBreak) {path : String} (hpath : oneLine path = true)
    {entries : List Entry} (h : ∀ e ∈ entries, WellNested e.marks) :
    WellNested (newNamespace b path entries).marks := by
  have hends : textMarks (b.text ++ b.text) = [] ∧ textMarks (b.text ++ "\x7d") = [] := by
    cases b <;> decide
  rw [newNamespace, Entry.marks, Decl.marks, hends.1, hends.2, (solid_newNamespace b hpath).2]
  exact (((sameNesting_rowMarks h).append (.refl [])) 0)

/-- What comes at the end of the module is balanced, entry by entry. -/
theorem wellNested_of_mem_ending (m : SourceModule) {plan : EditPlan}
    (hgroups : GroupsLaidOut (groupInsertions plan.insertions))
    (h : ∀ group ∈ groupInsertions plan.insertions, ∀ e ∈ group.2, WellNested e.marks) :
    ∀ e ∈ m.ending plan, WellNested e.marks := by
  intro e he
  obtain ⟨group, hgroup, hmem⟩ := List.mem_flatMap.1 he
  rw [left_insertEntries "" m.body.entries hgroups.keyed] at hgroup
  have hrun := h group (mem_of_mem_withoutAll hgroup)
  rw [endEntries] at hmem
  split at hmem
  · exact hrun e hmem
  · obtain rfl := List.mem_singleton.1 hmem
    have hpath := hgroups.path group (mem_of_mem_withoutAll hgroup)
    exact wellNested_newNamespace m.lineBreak hpath hrun

/-- If nothing that comes or goes has a part of a region, the splice nests like the first input,
which must have something for its first line to stand before. -/
theorem wellNested_splicedMarks_iff {m : SourceModule} {plan : EditPlan}
    (hm : rowLaidOut m.body.entries = true) (hentries : m.body.entries ≠ [])
    (hedits : EditsLaidOut plan.edits) (hgroups : GroupsLaidOut (groupInsertions plan.insertions))
    (hchange : BalancedChange plan.edits (groupInsertions plan.insertions))
    (hmembers : membersBalanced m = true) :
    WellNested (m.splicedMarks plan) ↔ RegionBalanced m.render := by
  have htypes : ∀ t ∈ typesUnder "" m.body.entries,
      ∀ e ∈ t.type.body.entries, WellNested e.decl.marks := by
    simpa [membersBalanced, Index.ofModule] using hmembers
  have hrow := sameNesting_splicedRow "" hedits.keyed hgroups.keyed hchange htypes
  have hending := sameNesting_rowMarks (wellNested_of_mem_ending m hgroups hchange.runs)
  have hstart : startMark m.bom ⟨m.body.entries ++ m.ending plan, m.body.trailing⟩
      = startMark m.bom m.body := by
    obtain ⟨language, bom, crlf, ⟨entries, trailing⟩⟩ := m
    cases entries with
    | nil => exact absurd rfl hentries
    | cons e rest => rfl
  rw [RegionBalanced, regionMarks_render hm, SourceModule.splicedMarks, hstart]
  exact ((SameNesting.refl _).append (hrow.append (hending.append (.refl _)))).wellNested_iff

/-! ## The plan of a merge

The statements so far are about any plan. What a merge puts in is made from the second input's
declarations, from notes and from paths. Texts of the second input are laid out as it is, and a note
or a path could only do harm if it went over the end of a line. -/

theorem oneLine_append {s t : String} (hs : oneLine s = true) (ht : oneLine t = true) :
    oneLine (s ++ t) = true := by
  simp only [oneLine, String.toList_append, List.contains_eq_mem, List.mem_append, not_or,
    Bool.not_eq_true', decide_eq_false_iff_not] at hs ht ⊢
  exact ⟨hs, ht⟩

theorem oneLine_qualify {path name : String} (hpath : oneLine path = true)
    (hname : oneLine name = true) : oneLine (qualify path name) = true := by
  rw [qualify]
  split
  · exact hname
  · exact oneLine_append (oneLine_append hpath (by decide)) hname

/-- A note is one line if its tag is: all else in it are digits and words. -/
theorem oneLine_note {tag : String} (h : oneLine tag = true) (id : Nat) (p : Provenance) :
    oneLine (note tag id p) = true := by
  have hid : oneLine (toString id) = true := by
    rw [Nat.toString_eq_ofList_toDigits, oneLine, String.toList_ofList]
    have hdigits : '\n' ∉ Nat.toDigits 10 id := fun hmem =>
      absurd (Nat.isDigit_of_mem_toDigits (by decide) (by decide) hmem) (by decide)
    simpa using hdigits
  have hp : oneLine p.text = true := by cases p <;> decide
  exact oneLine_append (oneLine_append (oneLine_append (oneLine_append h (by decide)) hid)
    (by decide)) hp

/-- The types of a laid out row are laid out, and their paths are lines. -/
theorem laidOut_types {es : List Entry} (h : rowLaidOut es = true) {path : String}
    (hpath : oneLine path = true) :
    ∀ t ∈ typesUnder path es, oneLine t.path = true ∧ t.entry.laidOut = true := by
  induction es using row_induction generalizing path with
  | nil => exact fun t ht => absurd ht List.not_mem_nil
  | scope leading notes name form header entries trailing footer rest ihBody ihRest =>
    simp only [rowLaidOut, Entry.laidOut, Decl.laidOut, Bool.and_eq_true] at h
    obtain ⟨⟨-, ⟨⟨hname, -⟩, hentries⟩, -⟩, hrest⟩ := h
    have hinner := oneLine_qualify hpath hname
    intro t ht
    rw [typesUnder, Entry.types, List.mem_append] at ht
    rcases ht with ht | ht
    · exact ihBody hentries hinner t ht
    · -- A namespace in file form goes on with its path.
      cases form with
      | block => exact ihRest hrest hpath t ht
      | file => exact ihRest hrest hinner t ht
  | type leading notes t rest ih =>
    rw [rowLaidOut, Bool.and_eq_true] at h
    intro t' ht'
    rw [typesUnder, Entry.types, List.mem_append, List.mem_singleton] at ht'
    rcases ht' with rfl | ht'
    · exact ⟨hpath, h.1⟩
    · exact ih h.2 hpath t' ht'
  | method leading notes m rest ih =>
    rw [rowLaidOut, Bool.and_eq_true] at h
    exact ih h.2 hpath
  | verbatim leading notes text rest ih =>
    rw [rowLaidOut, Bool.and_eq_true] at h
    exact ih h.2 hpath

theorem laidOut_member {t : IndexedType} (h : t.entry.laidOut = true) {n : Member}
    (hn : n ∈ t.type.members) : n.entry.laidOut = true := by
  obtain ⟨path, leading, notes, ⟨name, header, ⟨entries, trailing⟩, footer⟩⟩ := t
  simp only [IndexedType.entry, Entry.laidOut, Decl.laidOut, Bool.and_eq_true] at h
  exact rowLaidOut_iff.1 h.2.1.2 _ (List.fst_mem_of_mem_zipIdx (mem_membersFrom_iff.1 hn))

section

variable (tag : String) (resolutions : Option Resolutions) (first second : SourceModule)

/-- A pair of the plan is the edit of its name. -/
theorem edit_of_mem_edits {pair : String × TypeEdit}
    (h : pair ∈ (merge tag resolutions first second).edits.edits) :
    pair.2 = mergeEdit tag resolutions first second pair.1 :=
  (EditPlan.edit_of_mem (Resolver.keyed_edits_resolve ⟨tag, resolutions⟩ _ _) h).symm

/-- The edits of a merge put single lines on methods and append what is laid out. -/
theorem editsLaidOut_merge (htag : oneLine tag = true)
    (hsecond : rowLaidOut second.body.entries = true) :
    EditsLaidOut (merge tag resolutions first second).edits.edits := by
  refine ⟨Resolver.keyed_edits_resolve ⟨tag, resolutions⟩ _ _, fun pair hpair => ?_⟩
  rw [edit_of_mem_edits tag resolutions first second hpair]
  refine ⟨fun position n hfate => ?_, rowLaidOut_iff.2 fun e he => ?_⟩
  · rw [mergeEdit, Resolver.fate?_edit_resolve] at hfate
    obtain ⟨c, -, hc⟩ := List.exists_of_findSome?_eq_some hfate
    rw [Resolver.fate_annotate ⟨tag, resolutions⟩ hc]
    exact oneLine_note htag _ _
  · obtain ⟨t, ht, m, hm, id, p, rfl⟩ := Resolver.exists_method_of_mem_appended _ he
    have hmember := laidOut_member (laidOut_types hsecond (by decide) t ht).2 hm
    exact laidOut_annotated hmember (oneLine_note htag id p)

/-- The groups of a merge hold what is laid out, under paths of one line. -/
theorem groupsLaidOut_merge (htag : oneLine tag = true)
    (hsecond : rowLaidOut second.body.entries = true) :
    GroupsLaidOut (groupInsertions (merge tag resolutions first second).edits.insertions) := by
  refine ⟨keyed_groupInsertions _, fun group hgroup => ?_, fun group hgroup => ?_⟩
  · obtain ⟨i, hi, hpath⟩ := exists_insertion_of_group (List.mem_map_of_mem hgroup)
    obtain ⟨t, ht, -, id, rfl⟩ := Resolver.exists_type_of_mem_insertions _ hi
    rw [← hpath]
    exact (laidOut_types hsecond (by decide) t ht).1
  · refine rowLaidOut_iff.2 fun e he => ?_
    obtain ⟨i, hi, -, rfl⟩ := mem_insertions_of_group hgroup he
    obtain ⟨t, ht, -, id, rfl⟩ := Resolver.exists_type_of_mem_insertions _ hi
    exact laidOut_annotated (laidOut_types hsecond (by decide) t ht).2 (oneLine_note htag id _)

/-- What a merge puts in are declarations of the second input, so they are balanced if those are. -/
theorem balancedChange_merge (hsecond : declarationsBalanced second = true) :
    BalancedChange (merge tag resolutions first second).edits.edits
      (groupInsertions (merge tag resolutions first second).edits.insertions) := by
  have hdeclarations : ∀ t ∈ (Index.ofModule second).types,
      WellNested t.entry.marks ∧ ∀ m ∈ t.type.members, WellNested m.entry.marks := by
    simpa [declarationsBalanced] using hsecond
  refine ⟨fun pair hpair e he => ?_, fun group hgroup e he => ?_⟩
  · rw [edit_of_mem_edits tag resolutions first second hpair] at he
    obtain ⟨t, ht, m, hm, id, p, rfl⟩ := Resolver.exists_method_of_mem_appended _ he
    exact (hdeclarations t ht).2 m hm
  · obtain ⟨i, hi, -, rfl⟩ := mem_insertions_of_group hgroup he
    obtain ⟨t, ht, -, id, rfl⟩ := Resolver.exists_type_of_mem_insertions _ hi
    exact (hdeclarations t ht).1

end

/-- **When regions stay balanced.** The merged text of two files is balanced exactly where the
splice is: the marks of the first input, without those of the members that are dropped, and with
those of the second input's members and types that are put in. So it is, in particular, if the
first input is balanced and no region of the two reaches over the border of a declaration that may
come or go. -/
theorem regionBalanced_merge (tag : String) (resolutions : Option Resolutions)
    (first second : SourceModule) (htag : oneLine tag = true)
    (hfirst : rowLaidOut first.body.entries = true)
    (hsecond : rowLaidOut second.body.entries = true) :
    (RegionBalanced (merge tag resolutions first second).result.render
        ↔ WellNested (first.splicedMarks (merge tag resolutions first second).edits))
      ∧ (first.body.entries ≠ [] → membersBalanced first = true →
        declarationsBalanced second = true → RegionBalanced first.render →
        RegionBalanced (merge tag resolutions first second).result.render) := by
  have hedits := editsLaidOut_merge tag resolutions first second htag hsecond
  have hgroups := groupsLaidOut_merge tag resolutions first second htag hsecond
  have hexact : RegionBalanced (merge tag resolutions first second).result.render
      ↔ WellNested (first.splicedMarks (merge tag resolutions first second).edits) := by
    rw [RegionBalanced, ← regionMarks_compose first hfirst hedits hgroups]
    rfl
  refine ⟨hexact, fun hentries hmembers hdeclarations hbalanced => hexact.2 ?_⟩
  have hchange := balancedChange_merge tag resolutions first second hdeclarations
  exact (wellNested_splicedMarks_iff hfirst hentries hedits hgroups hchange hmembers).2 hbalanced

/-- A file with one class, each method with the text before it. -/
def sampleFile (methods : List (String × String)) (trailing : String) : SourceModule :=
  let entries := methods.map fun (leading, name) =>
    (⟨leading, [], .method ⟨name, "()", "\x7b X(); \x7d", "void " ++ name ++ "() \x7b X(); \x7d"⟩⟩
      : Entry)
  ⟨.csharp, false, false,
    ⟨[⟨"", [], .type ⟨"T", "class T\n\x7b", ⟨entries, trailing⟩, "\x7d"⟩⟩], "\n"⟩⟩

/-- The members of the second input come to stand in the region of the one that they replace. -/
theorem regionBalanced_merge_sample :
    let first := sampleFile [("\n    #region Api\n    ", "F")] "\n    #endregion\n"
    let second := sampleFile [("\n    ", "G"), ("\n    ", "F")] "\n"
    oneLine "merge" = true ∧ rowLaidOut first.body.entries = true
      ∧ rowLaidOut second.body.entries = true
      ∧ WellNested (first.splicedMarks (merge "merge" none first second).edits)
      ∧ RegionBalanced (merge "merge" none first second).result.render := by
  intro first second
  have hfirst : rowLaidOut first.body.entries = true := by decide +kernel
  have hsecond : rowLaidOut second.body.entries = true := by decide +kernel
  obtain ⟨hexact, hbalanced⟩ :=
    regionBalanced_merge "merge" none first second (by decide) hfirst hsecond
  have hmerged := hbalanced (by decide +kernel) (by decide +kernel) (by decide +kernel)
    (by decide +kernel)
  exact ⟨by decide, hfirst, hsecond, hexact.1 hmerged, hmerged⟩

/-- A file whose only method stands in a region, and whose texts are all balanced, is torn by a
merge with itself. -/
theorem regionBalanced_merge_torn :
    let file := sampleFile [("\n    #region Api\n    ", "F")] "\n    #endregion\n"
    RegionBalanced file.render
      ∧ (∀ t ∈ (Index.ofModule file).types, RegionBalanced (t.type.body.render .lf))
      ∧ rowLaidOut file.body.entries = true
      ∧ ¬ RegionBalanced (merge "merge" none file file).result.render := by
  decide +kernel

end ModuleMerge
