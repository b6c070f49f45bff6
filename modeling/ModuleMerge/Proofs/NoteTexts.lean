import ModuleMerge.Proofs.Locality
import ModuleMerge.Proofs.Provenance

/-!
# The texts of all notes

A note in a merged module was already on a declaration of one of the inputs, or the merge put it
there, with the tag of the pass, an id and one of the provenances. This holds at every depth, for
inputs with notes of their own as well.

In counting notes it was of use that there are none at first. Here the inputs may have some, and
then a note can not be told from a copy of an old one. What can be said is something of each note by
itself. So the statements are about any property of notes: if the notes of both inputs have it, and
all that are put on, then so do the notes of the merged module. The property of the main result is
chosen at the very end.

* `AllNotes` says something of all notes in a row of entries.
* `TypeEdit.Notes`, `Changes.Notes` and `EditPlan.Notes` say it of all notes that are brought in,
  and `allNotes_compose` carries it to the composed module.
* `note_of_merge` is the main result.
-/

set_option autoImplicit false

namespace ModuleMerge

/-! ## The notes in a row -/

/-- All notes on the entries of a row and on what is inside them have a property. -/
def AllNotes (P : String → Prop) (es : List Entry) : Prop :=
  ∀ e ∈ everyEntry es, ∀ text ∈ e.annotations, P text

/-- All notes on a declaration and on what is inside it have a property. -/
def NotesHave (P : String → Prop) (noted : Decl × List String) : Prop :=
  (∀ text ∈ noted.2, P text) ∧ ∀ x ∈ noted.1.inside, ∀ text ∈ x.annotations, P text

variable {P : String → Prop}

theorem allNotes_append {xs ys : List Entry} :
    AllNotes P (xs ++ ys) ↔ AllNotes P xs ∧ AllNotes P ys := by
  simp only [AllNotes, everyEntry_append, List.forall_mem_append]

theorem allNotes_cons {e : Entry} {rest : List Entry} :
    AllNotes P (e :: rest) ↔ NotesHave P e.noted ∧ AllNotes P rest := by
  simp only [AllNotes, NotesHave, everyEntry_cons, List.forall_mem_cons, List.forall_mem_append,
    Entry.noted, and_assoc]

/-- The text before an entry is nothing to its notes. -/
theorem allNotes_iff {es : List Entry} :
    AllNotes P es ↔ ∀ noted ∈ es.map Entry.noted, NotesHave P noted := by
  induction es with
  | nil => simp [AllNotes, everyEntry]
  | cons e rest ih => rw [allNotes_cons, List.map_cons, List.forall_mem_cons, ih]

/-- One more note on an entry. -/
theorem NotesHave.annotated {e : Entry} {text : String} (h : NotesHave P e.noted) (htext : P text) :
    NotesHave P (e.annotated text).noted :=
  ⟨List.forall_mem_append.2 ⟨h.1, List.forall_mem_singleton.2 htext⟩, h.2⟩

/-! ## Bringing in notes -/

/-- All notes that an edit brings have a property. -/
structure TypeEdit.Notes (P : String → Prop) (edit : TypeEdit) : Prop where
  fate : ∀ position text, edit.fate? position = some (.annotate text) → P text
  appended : AllNotes P edit.appended

/-- All notes that changes bring have a property. -/
structure Changes.Notes (P : String → Prop) (c : Changes) : Prop where
  edit : ∀ place, ((c.edit? place).getD .empty).Notes P
  run : ∀ place, AllNotes P ((c.run? place).getD [])

/-- All notes that a plan brings have a property. -/
structure EditPlan.Notes (P : String → Prop) (plan : EditPlan) : Prop where
  edit : ∀ name, (plan.edit name).Notes P
  inserted : AllNotes P (plan.insertions.map Insertion.entry)

theorem TypeEdit.notes_empty : TypeEdit.empty.Notes P :=
  ⟨fun _ _ h => by simp [empty, fate?] at h, fun _ he => absurd he List.not_mem_nil⟩

/-- In an edited type, the notes are old ones, those of a fate, and those on what is appended. -/
theorem allNotes_applyTo {edit : TypeEdit} (hedit : edit.Notes P) {t : TypeDecl}
    (ht : AllNotes P t.body.entries) : AllNotes P (edit.applyTo t).body.entries := by
  rw [allNotes_iff, noted_applyTo, List.forall_mem_append]
  refine ⟨fun noted hnoted => ?_, allNotes_iff.1 hedit.appended⟩
  obtain ⟨e, he, rfl | ⟨position, text, hfate, rfl⟩⟩ := exists_of_mem_leave hnoted
  · exact allNotes_iff.1 ht _ (List.mem_map_of_mem he)
  · have hnotes := allNotes_iff.1 ht _ (List.mem_map_of_mem he)
    exact hnotes.annotated (hedit.fate position text hfate)

/-- **Changing a row** brings no other notes than the changes do. -/
theorem allNotes_changedRow {c : Changes} (hc : c.Notes P) (position : Nat) {es : List Entry}
    (hes : AllNotes P es) : AllNotes P (changedRow c position es) := by
  have hunder : ∀ {c : Changes} (_ : c.Notes P) position, (c.under position).Notes P :=
    fun hc position => ⟨fun place => hc.edit (position :: place), fun place => hc.run _⟩
  induction es using row_induction generalizing c position with
  | nil => exact hes
  | scope leading notes name form header entries trailing footer rest ihBody ihRest =>
    obtain ⟨⟨hown, hinside⟩, hrest⟩ := allNotes_cons.1 hes
    -- The entries at the end of the namespace are not in the row yet when the walk goes down.
    have hgets : AllNotes P (form.gets ((c.under position).run? [])) := by
      cases form with
      | file => exact fun e he => absurd he List.not_mem_nil
      | block => exact (hunder hc position).run []
    have hbody := ihBody (hunder hc position) 0 (by rwa [Entry.noted, Decl.inside] at hinside)
    refine allNotes_cons.2 ⟨⟨hown, ?_⟩, ihRest hc (position + 1) hrest⟩
    simp only [Entry.changed, Entry.noted, Decl.inside]
    exact allNotes_append.2 ⟨hbody, hgets⟩
  | type leading notes t rest ih =>
    obtain ⟨⟨hown, hinside⟩, hrest⟩ := allNotes_cons.1 hes
    refine allNotes_cons.2 ⟨⟨hown, ?_⟩, ih hc (position + 1) hrest⟩
    rw [Entry.noted, inside_type] at hinside
    simp only [Entry.changed, Entry.noted, inside_type]
    exact allNotes_applyTo (hc.edit [position]) hinside
  | method leading notes m rest ih =>
    obtain ⟨hown, hrest⟩ := allNotes_cons.1 hes
    exact allNotes_cons.2 ⟨hown, ih hc (position + 1) hrest⟩
  | verbatim leading notes text rest ih =>
    obtain ⟨hown, hrest⟩ := allNotes_cons.1 hes
    exact allNotes_cons.2 ⟨hown, ih hc (position + 1) hrest⟩

section

variable {m : SourceModule} {plan : EditPlan}

/-- What a plan brings to a place comes from an edit or from an insertion. -/
theorem EditPlan.Notes.changes (h : plan.Notes P) : (plan.changes m).Notes P := by
  refine ⟨fun place => ?_, fun place => allNotes_iff.2 fun noted hnoted => ?_⟩
  · rcases m.first_or_left place with ⟨name, _, -, hedited⟩ | hleft
    · rw [hedited]
      exact h.edit name
    · rw [hleft]
      exact TypeEdit.notes_empty
  · obtain ⟨e, he, rfl⟩ := List.mem_map.1 hnoted
    obtain ⟨i, hi, rfl⟩ := EditPlan.exists_insertion_of_run he
    exact allNotes_iff.1 h.inserted _ (List.mem_map_of_mem (List.mem_map_of_mem hi))

/-- What goes to the end of the file are insertions, perhaps with a new namespace around them. -/
theorem allNotes_endEntries (h : plan.Notes P) {group : String × List Entry}
    (hgroup : group ∈ groupInsertions plan.insertions) : AllNotes P (endEntries m group) := by
  have hentries : AllNotes P group.2 := by
    refine allNotes_iff.2 fun noted hnoted => ?_
    obtain ⟨e, he, rfl⟩ := List.mem_map.1 hnoted
    obtain ⟨i, hi, -, rfl⟩ := mem_insertions_of_group hgroup he
    exact allNotes_iff.1 h.inserted _ (List.mem_map_of_mem (List.mem_map_of_mem hi))
  rw [endEntries]
  split
  · exact hentries
  · -- The new namespace has no notes itself.
    refine allNotes_cons.2 ⟨⟨fun text htext => absurd htext List.not_mem_nil, ?_⟩, ?_⟩
    · rwa [newNamespace, Entry.noted, Decl.inside]
    · exact fun e he => absurd he List.not_mem_nil

/-- **Composing a module** brings no other notes than the plan does. -/
theorem allNotes_compose (hm : AllNotes P m.body.entries) (hkeyed : Keyed plan.edits)
    (h : plan.Notes P) : AllNotes P (m.compose plan).body.entries := by
  rw [compose_eq m plan hkeyed, allNotes_append]
  refine ⟨allNotes_changedRow h.changes 0 hm, allNotes_iff.2 fun noted hnoted => ?_⟩
  obtain ⟨e, he, rfl⟩ := List.mem_map.1 hnoted
  obtain ⟨group, hgroup, he⟩ := List.mem_flatMap.1 he
  have hend := allNotes_endEntries (m := m) h (mem_of_mem_withoutAll hgroup)
  exact allNotes_iff.1 hend _ (List.mem_map_of_mem he)

end

/-! ## Notes in the merged module -/

/-- Without choices no method is noted as a chosen one. -/
theorem Resolver.provenance?_ne_chosenSecond {r : Resolver} (h : r.resolutions = none)
    (c : Contribution) : r.provenance? c ≠ some .chosenSecond := by
  rw [provenance?]
  cases c.partner with
  | none => simp
  | some first =>
    simp only [verdict, decide, h, Option.bind_none]
    by_cases hsame : first.method.sameBody c.second.method <;>
      simp [hsame, Disposition.provenance?]

/-- What a resolver brings has the notes of the second input and notes of its own. -/
theorem Resolver.notes_resolve (r : Resolver) (first : Index) {second : SourceModule}
    (hsecond : AllNotes P second.body.entries)
    (hnote : ∀ id p, (p = .chosenSecond → r.resolutions ≠ none) → P (note r.tag id p)) :
    (r.resolve (matchModules first (Index.ofModule second)).1).Notes P := by
  refine ⟨fun name => ⟨fun position text hfate => ?_, ?_⟩, ?_⟩
  · obtain ⟨id, rfl⟩ := r.notesFirst_edit _ _ name position text hfate
    exact hnote id .fromFirst fun h => by simp at h
  · refine allNotes_iff.2 fun noted hnoted => ?_
    obtain ⟨e, he, rfl⟩ := List.mem_map.1 hnoted
    rw [r.appended_edit_resolve] at he
    obtain ⟨c, hc, htaken⟩ := List.mem_filterMap.1 he
    obtain ⟨p, hp, rfl⟩ := Option.map_eq_some_iff.1 htaken
    obtain ⟨t, ht, hm⟩ := exists_type_of_mem_contributions hc
    have hentry := List.mem_of_getElem? (TypeDecl.mem_members_iff.1 hm)
    have hbody : AllNotes P t.type.body.entries := fun e he =>
      hsecond e ((mem_everyEntry_of_types ht).2 e he)
    refine (allNotes_iff.1 hbody _ (List.mem_map_of_mem hentry)).annotated (hnote c.id p ?_)
    rintro rfl hnone
    exact provenance?_ne_chosenSecond hnone c hp
  · refine allNotes_iff.2 fun noted hnoted => ?_
    obtain ⟨e, he, rfl⟩ := List.mem_map.1 hnoted
    obtain ⟨i, hi, rfl⟩ := List.mem_map.1 he
    obtain ⟨t, ht, -, id, rfl⟩ := r.exists_type_of_mem_insertions hi
    obtain ⟨hentry, hbody⟩ := mem_everyEntry_of_types ht
    have hnotes : NotesHave P t.entry.noted := by
      refine ⟨hsecond _ hentry, ?_⟩
      rw [Entry.noted, IndexedType.entry, inside_type]
      exact fun e he => hsecond e (hbody e he)
    exact hnotes.annotated (hnote id .addedFromSecond fun h => by simp at h)

/-- **A note in a merged module** is a note of one of the inputs, or it has the tag of the pass, an
id and a provenance. Without choices this provenance is never that of a chosen method. -/
theorem note_of_merge (tag : String) (choices : Option Resolutions) (first second : SourceModule)
    {e : Entry} (he : e ∈ (merge tag choices first second).result.everyEntry) {text : String}
    (htext : text ∈ e.annotations) :
    (∃ x ∈ first.everyEntry ++ second.everyEntry, text ∈ x.annotations)
      ∨ ∃ id p, text = note tag id p ∧ (p = .chosenSecond → choices ≠ none) := by
  let r : Resolver := ⟨tag, choices⟩
  let P : String → Prop := fun text =>
    (∃ x ∈ first.everyEntry ++ second.everyEntry, text ∈ x.annotations)
      ∨ ∃ id p, text = note tag id p ∧ (p = .chosenSecond → choices ≠ none)
  have hfirst : AllNotes P first.body.entries := fun x hx text htext =>
    .inl ⟨x, List.mem_append_left _ hx, htext⟩
  have hsecond : AllNotes P second.body.entries := fun x hx text htext =>
    .inl ⟨x, List.mem_append_right _ hx, htext⟩
  have hplan := r.notes_resolve (Index.ofModule first) hsecond fun id p hp => .inr ⟨id, p, rfl, hp⟩
  exact allNotes_compose hfirst (r.keyed_edits_resolve _ _) hplan e he text htext

end ModuleMerge
