import ModuleMerge.Proofs.RegionLayout
import ModuleMerge.Proofs.Standing

/-!
# Region lines of the merged module

The merged text has the region lines of the first input, less those inside the members that were
dropped, and with those that the second input's members and types bring along. The lines before a
dropped member stay. This is said here as a splice of the marks, without building the merged tree.

The splice takes the edits and groups from its tables in the same order as the composer does, so the
two can be compared step by step. All that is shown on the way has the form of a `lateMarks` of a
text with anything behind it. An equation about the marks of a text alone would be of no use, since
the text of an entry goes on in the line on which the entry before it ends. With the rest of the
file as a parameter the equations can be chained: each says what one piece adds to the marks of what
follows it.

The lines that are handed on are a parameter too. An entry that stays writes them down and hands on
nothing, and one that is dropped adds its own, so the induction over a body is for all of them.

The first line of the file is no late one. It is looked at on its own: what a plan changes is behind
the leading text and the start of the first declaration, or behind all entries if there are any.

* `splicedMarks` is the splice, put together in one walk over the first input.
* `regionMarks_compose` says that these are the marks of the merged text.
-/

set_option autoImplicit false

namespace ModuleMerge

open Text (RegionMark regionMarks lateMarks lineMark? firstLine solid handsOn Firm)

/-! ## The splice -/

/-- The marks that an edit leaves of the entries of a type from `position` on: a dropped member
leaves those before it. -/
def TypeEdit.keptMarks (edit : TypeEdit) : Nat → List Entry → List RegionMark
  | _, [] => []
  | position, e :: rest =>
    textMarks e.leading
      ++ ((if edit.fate? position = some .drop then [] else e.decl.marks)
        ++ edit.keptMarks (position + 1) rest)

/-- The marks of a type after an edit. -/
def TypeEdit.splicedMarks (edit : TypeEdit) (t : TypeDecl) : List RegionMark :=
  textMarks t.header
    ++ (edit.keptMarks 0 t.body.entries
      ++ (rowMarks edit.appended ++ textMarks (t.body.trailing ++ t.footer)))

mutual

/-- The marks of an entry's declaration after the pending edits, and with the groups that its
namespaces take. -/
def Entry.splicedMarks (path : String) (pending : List (String × TypeEdit))
    (groups : InsertionGroups) : Entry → List RegionMark
  | ⟨_, _, .scope ⟨name, form, header, ⟨entries, trailing⟩, footer⟩⟩ =>
    let taken := form.takes (qualify path name) (insertEntries (qualify path name) groups entries).2
    textMarks header
      ++ ((splicedRow (qualify path name) pending groups entries ++ rowMarks taken)
        ++ textMarks (trailing ++ footer))
  | ⟨_, _, .type t⟩ => ((valueOf? (qualify path t.name) pending).getD .empty).splicedMarks t
  | ⟨_, _, .method m⟩ => textMarks m.text
  | ⟨_, _, .verbatim text⟩ => textMarks text

/-- The marks of a row of entries after the pending edits, and with the groups that its namespaces
take. -/
def splicedRow (path : String) (pending : List (String × TypeEdit)) (groups : InsertionGroups) :
    List Entry → List RegionMark
  | [] => []
  | e :: rest =>
    textMarks e.leading
      ++ (e.splicedMarks path pending groups
        ++ splicedRow (e.pathAfter path) (editEntry path pending e).2 (insertEntry path groups e).2
          rest)

end

/-- The entries that a plan puts at the end of a module. -/
def SourceModule.ending (m : SourceModule) (plan : EditPlan) : List Entry :=
  (insertEntries "" (groupInsertions plan.insertions) m.body.entries).2.flatMap (endEntries m)

/-- The marks of a module after a plan. -/
def SourceModule.splicedMarks (m : SourceModule) (plan : EditPlan) : List RegionMark :=
  startMark m.bom ⟨m.body.entries ++ m.ending plan, m.body.trailing⟩
    ++ (splicedRow "" plan.edits (groupInsertions plan.insertions) m.body.entries
      ++ (rowMarks (m.ending plan) ++ textMarks m.body.trailing))

/-! ## Types

An edit does three things to a body. Members are dropped, with the lines before them handed on; they
get a note, which is a line without a mark; and entries are put behind the last one, where the lines
that are still on hand come first. -/

/-- An edit whose notes are lines of their own and whose appended entries are laid out. -/
structure TypeEdit.LaidOut (edit : TypeEdit) : Prop where
  note : ∀ position note, edit.fate? position = some (.annotate note) → oneLine note = true
  appended : rowLaidOut edit.appended = true

theorem laidOut_empty : TypeEdit.empty.LaidOut :=
  ⟨fun _ _ h => by simp [TypeEdit.empty, TypeEdit.fate?] at h, rfl⟩

/-- An entry with directive lines put before it. They have the marks that they bring, since whatever
stands behind them begins on a new line or on one that has its mark. -/
theorem lateMarks_carrying (b : Text.LineBreak) {carried : String} (hcarried : Firm carried.toList)
    {e : Entry} (h : e.laidOut = true) (cs : List Char) :
    lateMarks (((e.carrying carried).render b).toList ++ cs)
      = textMarks carried ++ (e.marks ++ lateMarks cs) := by
  obtain ⟨leading, notes, decl⟩ := e
  simp only [Entry.laidOut, Bool.and_eq_true] at h
  have hnoted := lateMarks_noted b (carried ++ leading) h.1.1.1 h.1.2
    (Decl.marks_render b decl h.2) cs
  simp only [Entry.carrying, Entry.render, Entry.marks, String.toList_append, List.append_assoc]
  rw [hcarried, hnoted]
  rfl

/-- A note that is one line may be put on an entry. -/
theorem laidOut_annotated {e : Entry} (h : e.laidOut = true) {note : String}
    (hnote : oneLine note = true) : (e.annotated note).laidOut = true := by
  obtain ⟨leading, notes, decl⟩ := e
  simp only [Entry.laidOut, Entry.annotated, Bool.and_eq_true, List.all_append] at h ⊢
  exact ⟨⟨h.1.1, h.1.2, by simpa using hnote⟩, h.2⟩

/-- The marks of an entry are those before its declaration and those in it. -/
theorem Entry.marks_eq (e : Entry) : e.marks = textMarks e.leading ++ e.decl.marks := by
  cases e; rfl

/-- Directive lines of a dropped member, put behind others, have the marks they had. -/
theorem textMarks_append_directiveLines {carried leading : String}
    (hcarried : Firm carried.toList) (h : handsOn leading.toList = true) :
    textMarks (carried ++ directiveLines leading) = textMarks carried ++ textMarks leading := by
  have hlines := Text.lateMarks_directiveLines h []
  rw [List.append_nil, lateMarks, List.append_nil] at hlines
  rw [textMarks, String.toList_append, hcarried, hlines]
  rfl

/-- What an edit leaves of a row, with the directive lines that are left over behind it. By
induction on the row, for all lines that may be on hand before it: they come first. -/
theorem lateMarks_survivors (b : Text.LineBreak) {edit : TypeEdit} (hedit : edit.LaidOut)
    {es : List Entry} (hes : rowLaidOut es = true) (position : Nat) {carried : String}
    (hcarried : Firm carried.toList) (cs : List Char) :
    lateMarks ((renderEntries b (edit.survivors position carried es).1).toList
        ++ ((edit.survivors position carried es).2.toList ++ cs))
      = textMarks carried ++ (edit.keptMarks position es ++ lateMarks cs) := by
  induction es generalizing position carried with
  | nil => exact hcarried cs
  | cons e rest ih =>
    rw [rowLaidOut, Bool.and_eq_true] at hes
    obtain ⟨he, hrest⟩ := hes
    -- An entry that stays takes the lines that were carried so far.
    have hstays : ∀ e' : Entry, e'.laidOut = true → e'.marks = e.marks →
        lateMarks ((renderEntries b
            (e'.carrying carried :: (edit.survivors (position + 1) "" rest).1)).toList
          ++ ((edit.survivors (position + 1) "" rest).2.toList ++ cs))
        = textMarks carried
          ++ (e.marks ++ (edit.keptMarks (position + 1) rest ++ lateMarks cs)) := by
      intro e' he' hmarks
      rw [renderEntries, String.toList_append, List.append_assoc,
        lateMarks_carrying b hcarried he', ih hrest (position + 1) Text.firm_empty, hmarks]
      rfl
    rw [TypeEdit.survivors, TypeEdit.keptMarks]
    cases hfate : edit.fate? position with
    | none => simpa [Entry.marks_eq] using hstays e he rfl
    | some fate =>
      cases fate with
      | drop =>
        -- The declaration is gone, and its lines join those on hand for the rest of the row.
        have hleading : handsOn e.leading.toList = true := by
          obtain ⟨leading, notes, decl⟩ := e
          simp only [Entry.laidOut, Bool.and_eq_true] at he
          exact he.1.1.2
        have hlines : Firm (carried ++ directiveLines e.leading).toList := by
          rw [String.toList_append]
          exact hcarried.append (Text.firm_directiveLines hleading)
        have hdropped := ih hrest (position + 1) hlines
        rw [textMarks_append_directiveLines hcarried hleading] at hdropped
        simpa using hdropped
      | annotate note =>
        have hnote := laidOut_annotated he (hedit.note position note hfate)
        have hmarks : (e.annotated note).marks = e.marks := by
          rw [Entry.marks_eq, Entry.marks_eq]
          rfl
        simpa [Entry.marks_eq] using hstays (e.annotated note) hnote hmarks

/-- Directive lines that are left over stand before the next entry, or before the end. What follows
them is not named, as the notes of the entry come to be rendered behind other text; only its marks
matter. -/
theorem exists_carryInto (b : Text.LineBreak) {es : List Entry} (hes : rowLaidOut es = true)
    (carried : String) (cs : List Char) :
    ∃ more, (renderEntries b (carryInto carried es).1).toList
          ++ ((carryInto carried es).2.toList ++ cs) = carried.toList ++ more
      ∧ lateMarks more = rowMarks es ++ lateMarks cs := by
  cases es with
  | nil => exact ⟨cs, rfl, rfl⟩
  | cons e rest =>
    rw [rowLaidOut, Bool.and_eq_true] at hes
    obtain ⟨leading, notes, decl⟩ := e
    have he := hes.1
    simp only [Entry.laidOut, Bool.and_eq_true] at he
    refine ⟨leading.toList ++ ((renderNotes b (carried ++ leading) notes).toList
      ++ ((decl.render b).toList ++ ((renderEntries b rest).toList ++ cs))), ?_, ?_⟩
    · simp [carryInto, Entry.carrying, renderEntries, Entry.render, String.toList_append]
    · rw [lateMarks_noted b _ he.1.1.1 he.1.2 (Decl.marks_render b decl he.2),
        lateMarks_renderEntries b rest hes.2, rowMarks, Entry.marks_eq]
      simp

/-- **A type after an edit has the spliced marks.** -/
theorem marksOfText_applyTo (b : Text.LineBreak) {edit : TypeEdit} (hedit : edit.LaidOut)
    {t : TypeDecl} (ht : (Decl.type t).laidOut = true) :
    MarksOfText (edit.splicedMarks t) ((Decl.type (edit.applyTo t)).render b) := by
  obtain ⟨name, header, ⟨entries, trailing⟩, footer⟩ := t
  simp only [Decl.laidOut, Bool.and_eq_true] at ht
  rw [TypeEdit.applyTo, Decl.render, Block.render_eq, TypeEdit.splicedMarks, String.append_assoc]
  refine (marksOfText_solid ht.1.1).append fun cs => ?_
  obtain ⟨more, htext, hmore⟩ := exists_carryInto b hedit.appended
    (edit.survivors 0 "" entries).2 ((trailing ++ footer).toList ++ cs)
  have hkept := lateMarks_survivors b hedit ht.1.2 0 Text.firm_empty more
  rw [← htext, hmore, Text.firm_of_endsFirm ht.2 cs] at hkept
  simpa [renderEntries_append, String.toList_append, textMarks, lateMarks] using hkept

/-! ## Trees

Along a row the tables of edits and groups get shorter, as each is used up where its name stands. An
entry is compared with the tables that it meets, and the rest of the row with those that it leaves.
Insertions only look at the names of scopes, and no edit changes those, so the two walks may be
taken one after the other or both at once. -/

/-- Pending edits, at most one for a name, that are laid out. -/
structure EditsLaidOut (pending : List (String × TypeEdit)) : Prop where
  keyed : Keyed pending
  edit : ∀ pair ∈ pending, pair.2.LaidOut

/-- Groups, at most one for a path, whose entries are laid out. -/
structure GroupsLaidOut (groups : InsertionGroups) : Prop where
  keyed : Keyed groups
  path : ∀ group ∈ groups, oneLine group.1 = true
  entries : ∀ group ∈ groups, rowLaidOut group.2 = true

/-- What an entry leaves of the edits is a part of them. -/
theorem EditsLaidOut.after {pending : List (String × TypeEdit)} (h : EditsLaidOut pending)
    (path : String) (e : Entry) : EditsLaidOut (editEntry path pending e).2 := by
  refine ⟨h.keyed.left_editEntry path e, fun pair hpair => h.edit pair ?_⟩
  rw [left_editEntry path e h.keyed] at hpair
  exact mem_of_mem_withoutAll hpair

theorem GroupsLaidOut.withoutAll {groups : InsertionGroups} (h : GroupsLaidOut groups)
    (names : List String) : GroupsLaidOut (withoutAll names groups) :=
  ⟨h.keyed.withoutAll _, fun group hgroup => h.path group (mem_of_mem_withoutAll hgroup),
    fun group hgroup => h.entries group (mem_of_mem_withoutAll hgroup)⟩

/-- And so it is with the groups. -/
theorem GroupsLaidOut.after {groups : InsertionGroups} (h : GroupsLaidOut groups)
    (path : String) (e : Entry) : GroupsLaidOut (insertEntry path groups e).2 := by
  rw [left_insertEntry path e h.keyed]
  exact h.withoutAll _

/-- A namespace takes a group that is laid out, or nothing. -/
theorem rowLaidOut_takes {groups : InsertionGroups} (h : GroupsLaidOut groups) (form : ScopeForm)
    (path : String) : rowLaidOut (form.takes path groups) = true := by
  cases form with
  | file => rfl
  | block =>
    rw [ScopeForm.takes]
    cases hrun : valueOf? path groups with
    | none => rfl
    | some run => exact h.entries _ (mem_of_valueOf? hrun)

/-- Edits and insertions leave what stands before a declaration. -/
theorem render_insertEntry_editEntry (b : Text.LineBreak) (path : String)
    (pending : List (String × TypeEdit)) (groups : InsertionGroups) (e : Entry) :
    (insertEntry path groups (editEntry path pending e).1).1.render b
      = e.leading ++ renderNotes b e.leading e.annotations
        ++ (insertEntry path groups (editEntry path pending e).1).1.decl.render b := by
  obtain ⟨leading, notes, ⟨name, form, header, ⟨entries, trailing⟩, footer⟩ | t | m | text⟩ := e
  · rfl
  · rw [editEntry]
    split <;> rfl
  · rfl
  · rfl

mutual

/-- **A declaration after edits and insertions has the spliced marks.** Only types and scopes
change; the claim for a scope's body is the one for rows. -/
theorem Entry.marksOfText_spliced (b : Text.LineBreak) :
    ∀ e : Entry, e.laidOut = true →
      ∀ (path : String) (pending : List (String × TypeEdit)) (groups : InsertionGroups),
        EditsLaidOut pending → GroupsLaidOut groups →
        MarksOfText (e.splicedMarks path pending groups)
          ((insertEntry path groups (editEntry path pending e).1).1.decl.render b)
  | ⟨leading, notes, .scope ⟨name, form, header, ⟨entries, trailing⟩, footer⟩⟩, h => by
    intro path pending groups hpending hgroups
    simp only [Entry.laidOut, Decl.laidOut, Bool.and_eq_true] at h
    obtain ⟨-, ⟨⟨-, hheader⟩, hentries⟩, hfooter⟩ := h
    have hleft := left_insertEntries (qualify path name) entries hgroups.keyed
    have hafter : GroupsLaidOut (insertEntries (qualify path name) groups entries).2 :=
      hleft ▸ hgroups.withoutAll _
    have htaken := rowLaidOut_takes hafter form (qualify path name)
    -- The new types of the namespace are written between its own entries and its end.
    simp only [editEntry, insertEntry, Entry.splicedMarks,
      left_insertEntries_editEntries _ pending entries hgroups.keyed,
      insertInto_eq _ _ _ hafter.keyed]
    refine marksOfText_braced b hheader (fun cs => ?_) hfooter
    rw [renderEntries_append, String.toList_append, List.append_assoc,
      lateMarks_splicedRow b entries hentries _ _ _ hpending hgroups,
      lateMarks_renderEntries b _ htaken, List.append_assoc]
  | ⟨leading, notes, .type t⟩, h => by
    intro path pending groups hpending hgroups
    simp only [Entry.laidOut, Bool.and_eq_true] at h
    rw [editEntry_type path leading notes t hpending.keyed]
    refine marksOfText_applyTo b ?_ h.2
    cases hedit : valueOf? (qualify path t.name) pending with
    | none => exact laidOut_empty
    | some edit => exact hpending.edit _ (mem_of_valueOf? hedit)
  | ⟨leading, notes, .method m⟩, h => by
    intro path pending groups _ _
    simp only [Entry.laidOut, Bool.and_eq_true] at h
    exact marksOfText_solid h.2
  | ⟨leading, notes, .verbatim text⟩, h => by
    intro path pending groups _ _
    simp only [Entry.laidOut, Bool.and_eq_true] at h
    exact marksOfText_solid h.2

/-- **A row after edits and insertions has the spliced marks.** -/
theorem lateMarks_splicedRow (b : Text.LineBreak) :
    ∀ es : List Entry, rowLaidOut es = true →
      ∀ (path : String) (pending : List (String × TypeEdit)) (groups : InsertionGroups),
        EditsLaidOut pending → GroupsLaidOut groups →
        ∀ cs, lateMarks ((renderEntries b
            (insertEntries path groups (editEntries path pending es).1).1).toList ++ cs)
          = splicedRow path pending groups es ++ lateMarks cs
  | [], _ => fun _ _ _ _ _ _ => rfl
  | e :: rest, h => by
    intro path pending groups hpending hgroups cs
    rw [rowLaidOut, Bool.and_eq_true] at h
    obtain ⟨he, hrest⟩ := h
    have hdecl := Entry.marksOfText_spliced b e he path pending groups hpending hgroups
    have htail := lateMarks_splicedRow b rest hrest (e.pathAfter path) (editEntry path pending e).2
      (insertEntry path groups e).2 (hpending.after path e) (hgroups.after path e) cs
    obtain ⟨leading, notes, decl⟩ := e
    simp only [Entry.laidOut, Bool.and_eq_true] at he
    have hnoted := lateMarks_noted b leading he.1.1.1 he.1.2 hdecl
    simp only [editEntries, insertEntries, renderEntries, String.toList_append,
      render_insertEntry_editEntry, pathAfter_editEntry,
      left_insertEntry_editEntry _ _ _ hgroups.keyed, List.append_assoc, splicedRow]
    rw [hnoted, htail]

end

/-! ## Modules

A group that no namespace has taken goes to the end of the module, into a namespace that is made for
it. That is an entry like others, and it is laid out. -/

/-- The header of a new namespace is two lines without a mark. -/
theorem solid_newNamespace (b : Text.LineBreak) {path : String} (hpath : oneLine path = true) :
    solid ("namespace " ++ path ++ b.text ++ "\x7b").toList = true
      ∧ textMarks ("namespace " ++ path ++ b.text ++ "\x7b") = [] := by
  obtain ⟨line, htext, hline⟩ : ∃ line,
      ("namespace " ++ path ++ b.text ++ "\x7b").toList
          = ("namespace ".toList ++ line) ++ '\n' :: "\x7b".toList
        ∧ '\n' ∉ "namespace ".toList ++ line := by
    have hmem : '\n' ∉ path.toList := by simpa [oneLine] using hpath
    cases b with
    | lf => exact ⟨path.toList, by simp [Text.LineBreak.text], by simp [hmem]⟩
    | crlf =>
      exact ⟨path.toList ++ ['\r'], by simp [Text.LineBreak.text], by simp [hmem]⟩
  rw [textMarks, solid, htext, Text.firstLine_append_newline hline,
    Text.lastLine_append_newline (by decide), Text.lineMark?_append_of_decided (by decide),
    List.append_assoc, Text.lateMarks_append_of_not_mem (by decide)]
  rw [List.mem_append, not_or] at hline
  rw [Text.lateMarks_append_of_not_mem hline.2]
  decide

/-- A new namespace is laid out if what stands in it is. -/
theorem laidOut_newNamespace (b : Text.LineBreak) {path : String} (hpath : oneLine path = true)
    {entries : List Entry} (h : rowLaidOut entries = true) :
    (newNamespace b path entries).laidOut = true := by
  have hheader := (solid_newNamespace b hpath).1
  simp only [newNamespace, Entry.laidOut, Decl.laidOut, hpath, hheader, h]
  cases b <;> decide

/-- So the entries at the end of a module are all laid out. -/
theorem rowLaidOut_ending (m : SourceModule) {plan : EditPlan}
    (h : GroupsLaidOut (groupInsertions plan.insertions)) :
    rowLaidOut (m.ending plan) = true := by
  rw [rowLaidOut_iff, SourceModule.ending]
  intro e he
  obtain ⟨group, hgroup, hmem⟩ := List.mem_flatMap.1 he
  rw [left_insertEntries "" m.body.entries h.keyed] at hgroup
  have hentries := h.entries group (mem_of_mem_withoutAll hgroup)
  rw [endEntries] at hmem
  split at hmem
  · exact rowLaidOut_iff.1 hentries e hmem
  · obtain rfl := List.mem_singleton.1 hmem
    exact laidOut_newNamespace m.lineBreak (h.path group (mem_of_mem_withoutAll hgroup)) hentries

/-- The body of a module after a plan starts like the body with the entries that are put at its
end. The first line has to do with the first entry only, and if there is none, with what is put at
the end. -/
theorem firstMark_compose (b : Text.LineBreak) {es ending : List Entry} (trailing : String)
    (hes : rowLaidOut es = true) (hending : rowLaidOut ending = true)
    {pending : List (String × TypeEdit)} {groups : InsertionGroups}
    (hpending : EditsLaidOut pending) (hgroups : GroupsLaidOut groups) :
    (lineMark? (firstLine ((renderEntries b
        ((insertEntries "" groups (editEntries "" pending es).1).1 ++ ending)).toList
          ++ trailing.toList))).toList
      = (lineMark? (firstLine (Block.start ⟨es ++ ending, trailing⟩).toList)).toList := by
  cases es with
  | nil => exact firstMark_renderEntries b hending trailing
  | cons e rest =>
    rw [rowLaidOut, Bool.and_eq_true] at hes
    have hdecl := Entry.marksOfText_spliced b e hes.1 "" pending groups hpending hgroups
    obtain ⟨leading, notes, decl⟩ := e
    have he := hes.1
    simp only [Entry.laidOut, Bool.and_eq_true] at he
    simp only [editEntries, insertEntries, List.cons_append, renderEntries, String.toList_append,
      render_insertEntry_editEntry, List.append_assoc]
    exact firstMark_noted b he.1.1.1 he.1.2 hdecl _

/-- **The merged text has the spliced marks.** The first line is counted by itself, since the mark
at the start of a file may hide a region line there; all others are late. -/
theorem regionMarks_compose (m : SourceModule) {plan : EditPlan}
    (hm : rowLaidOut m.body.entries = true) (hedits : EditsLaidOut plan.edits)
    (hgroups : GroupsLaidOut (groupInsertions plan.insertions)) :
    regionMarks (m.compose plan).render.toList = m.splicedMarks plan := by
  have hending := rowLaidOut_ending m hgroups
  have hbody : (m.compose plan).body.render m.lineBreak
      = renderEntries m.lineBreak ((insertEntries "" (groupInsertions plan.insertions)
          (editEntries "" plan.edits m.body.entries).1).1 ++ m.ending plan) ++ m.body.trailing := by
    rw [Block.render_eq, SourceModule.compose, SourceModule.ending,
      left_insertEntries_editEntries "" plan.edits m.body.entries hgroups.keyed]
  have hlate : lateMarks ((m.compose plan).body.render m.lineBreak).toList
      = splicedRow "" plan.edits (groupInsertions plan.insertions) m.body.entries
        ++ (rowMarks (m.ending plan) ++ textMarks m.body.trailing) := by
    rw [hbody, renderEntries_append, String.toList_append, String.toList_append, List.append_assoc,
      lateMarks_splicedRow m.lineBreak m.body.entries hm "" plan.edits _ hedits hgroups,
      lateMarks_renderEntries m.lineBreak _ hending]
    rfl
  have hfirst := firstMark_compose m.lineBreak m.body.trailing hm hending hedits hgroups
  rw [← String.toList_append, ← hbody] at hfirst
  have hrender : (m.compose plan).render
      = (if m.bom then "\uFEFF" else "") ++ (m.compose plan).body.render m.lineBreak := rfl
  rw [hrender, regionMarks_file, hfirst, hlate]
  rfl

end ModuleMerge
