import ModuleMerge.Proofs.Changes
import ModuleMerge.Proofs.RegionLayout

/-!
# Line breaks

A file that ends its lines with a carriage return and a line feed should still do so after a merge.
The merge adds line breaks in several places, and it takes each of them from somewhere else: those
of notes from the text before the declaration, those of handed on preprocessor lines from the text
that they are cut out of, and those of new namespaces from the module. All other text is put
together from the two files as it is.

All of these sources are texts of the inputs, so the property goes from the texts that two trees
hold to the text that is written in the end. It is a property that is kept by putting texts one
behind the other, and never by taking them apart: of two halves of a pure text the second may begin
with a line feed. So nothing is shown of parts of texts. The handed on lines look like such parts,
but they are written anew, each with a line break in front and without the one at its end.

The proofs come in two layers. First, a tree whose texts are pure is written as a pure text, notes
included. Then editing, inserting and composing are looked at as ways to make a tree from other
trees, and all that has to be followed is which texts are in it. In the second layer no text is
looked into.

The kind of line break that is chosen for a note depends on whether the text before it has a line
break at all, and then of which kind. A text that is pure and has a line feed has a carriage return
with it, so the choice is right; in a text without any the module's own kind is taken, and that is
the one hypothesis on the first module besides its texts.

* `Text.OnlyCrlf` says that every line feed stands directly behind a carriage return. It can be
  computed, and it holds of texts put one after another.
* `Decl.texts`, `Entry.texts` and `rowTexts` are the texts that a tree holds.
* `onlyCrlf_render` says that what is written of such texts is such a text again.
* `allCrlf_compose` says that composing a module keeps its texts so, and `onlyCrlf_merge` is the
  main result.
-/

set_option autoImplicit false

namespace ModuleMerge
namespace Text

/-! ## Texts

The property is stated by cutting a text at a line feed in all possible ways. To compute it, the
text is read once with the character before in hand. -/

/-- Every line feed stands directly behind a carriage return. -/
def OnlyCrlf (cs : List Char) : Prop :=
  ∀ before after, cs = before ++ '\n' :: after → before.getLast? = some '\r'

/-- Whether every line feed stands directly behind a carriage return, `last` being the character
before the text. -/
def onlyCrlfAfter (last : Char) : List Char → Bool
  | [] => true
  | c :: cs => (c ≠ '\n' || last = '\r') && onlyCrlfAfter c cs

/-- The scan decides the property, of a text with one more character before it. That character takes
the place of the start of the text in the rest of the scan. -/
theorem onlyCrlfAfter_iff {last : Char} {cs : List Char} :
    onlyCrlfAfter last cs = true
      ↔ ∀ before after, cs = before ++ '\n' :: after → (last :: before).getLast? = some '\r' := by
  induction cs generalizing last with
  | nil => simp [onlyCrlfAfter]
  | cons c cs ih =>
    rw [onlyCrlfAfter, Bool.and_eq_true, ih]
    constructor
    · rintro ⟨hc, hcs⟩ before after heq
      cases before with
      | nil =>
        obtain ⟨rfl, -⟩ := List.cons.inj heq
        simpa using hc
      | cons d before =>
        obtain ⟨rfl, hrest⟩ := List.cons.inj heq
        rw [List.getLast?_cons_cons]
        exact hcs before after hrest
    · intro h
      refine ⟨?_, fun before after heq => ?_⟩
      · by_cases hc : c = '\n'
        · have hlast := h [] cs (by rw [hc]; rfl)
          simpa [hc] using hlast
        · simp [hc]
      · have hlast := h (c :: before) after (by rw [heq]; rfl)
        rwa [List.getLast?_cons_cons] at hlast

/-- Nothing before a text is as good as a blank. -/
theorem onlyCrlf_iff {cs : List Char} : OnlyCrlf cs ↔ onlyCrlfAfter ' ' cs = true := by
  rw [onlyCrlfAfter_iff]
  refine forall₃_congr fun before after _ => ?_
  rw [List.getLast?_cons]
  cases before.getLast? <;> simp

instance : DecidablePred OnlyCrlf :=
  fun _ => decidable_of_iff _ onlyCrlf_iff.symm

/-- A text without line feeds has no wrong ones. -/
theorem onlyCrlf_of_not_mem {cs : List Char} (h : '\n' ∉ cs) : OnlyCrlf cs :=
  fun _ _ heq => absurd (heq ▸ List.mem_append_right _ List.mem_cons_self) h

/-- Behind one another: the line feeds of the second are behind what they were behind before. -/
theorem OnlyCrlf.append {xs ys : List Char} (hxs : OnlyCrlf xs) (hys : OnlyCrlf ys) :
    OnlyCrlf (xs ++ ys) := by
  intro before after heq
  rcases List.append_eq_append_iff.1 heq with ⟨more, rfl, hright⟩ | ⟨more, hleft, hright⟩
  · rw [List.getLast?_append, hys more after hright]
    rfl
  · cases more with
    | nil => exact absurd (hys [] after hright.symm) (by simp)
    | cons c more =>
      obtain ⟨rfl, -⟩ := List.cons.inj hright
      exact hxs before more hleft

theorem onlyCrlf_flatMap {α : Type} {f : α → List Char} {xs : List α}
    (h : ∀ x ∈ xs, OnlyCrlf (f x)) : OnlyCrlf (xs.flatMap f) := by
  induction xs with
  | nil => exact onlyCrlf_of_not_mem List.not_mem_nil
  | cons x rest ih =>
    rw [List.flatMap_cons]
    exact (h x List.mem_cons_self).append (ih fun y hy => h y (List.mem_cons_of_mem x hy))

theorem onlyCrlf_crlf : OnlyCrlf LineBreak.crlf.chars := by decide

theorem onlyCrlf_empty : OnlyCrlf "".toList := by decide

/-- A carriage return and a line feed are found wherever they stand. -/
theorem hasCrlf_append (before after : List Char) :
    hasCrlf (before ++ '\r' :: '\n' :: after) = true := by
  induction before with
  | nil => rfl
  | cons c rest ih =>
    rw [List.cons_append, hasCrlf.eq_def]
    split
    · rfl
    · rename_i heq
      obtain ⟨-, rfl⟩ := List.cons.inj heq
      exact ih
    · rename_i heq
      exact absurd heq (List.cons_ne_nil _ _)

/-- Such a text with a line break in it is seen to end its lines this way. -/
theorem OnlyCrlf.ofChars_eq {cs : List Char} (h : OnlyCrlf cs) (hmem : '\n' ∈ cs) :
    LineBreak.ofChars cs = .crlf := by
  obtain ⟨before, after, rfl⟩ := List.append_of_mem hmem
  obtain ⟨rest, rfl⟩ := List.getLast?_eq_some_iff.1 (h before after rfl)
  have htext : hasCrlf (rest ++ ['\r'] ++ '\n' :: after) = true := by
    simpa using hasCrlf_append rest after
  rw [LineBreak.ofChars, if_pos htext]

/-- Preprocessor lines are handed on with line breaks like those around them. If one is handed on at
all, the text has a line feed, at the end of that line, and so its line breaks are seen. -/
theorem OnlyCrlf.directiveLines {leading : String} (h : OnlyCrlf leading.toList) :
    OnlyCrlf (directiveLines leading).toList := by
  rw [toList_directiveLines]
  refine onlyCrlf_flatMap fun line hline => ?_
  obtain ⟨hdropped, hdirective⟩ := List.mem_filter.1 hline
  have hterminated := List.mem_of_mem_drop hdropped
  have hbreak : '\n' ∈ leading.toList := by
    rw [← flatten_terminatedLines leading.toList]
    rw [isDirectiveLine, Bool.and_eq_true, decide_eq_true_eq] at hdirective
    exact List.mem_flatten.2 ⟨line, hterminated, List.mem_of_getLast? hdirective.1⟩
  rw [LineBreak.ofText, h.ofChars_eq hbreak]
  exact onlyCrlf_crlf.append (onlyCrlf_of_not_mem (not_mem_trimEnd hterminated hdirective))

end Text

open Text (OnlyCrlf onlyCrlf_of_not_mem onlyCrlf_flatMap onlyCrlf_crlf onlyCrlf_empty)

/-! ## The texts of a tree

Names of scopes are among the texts of a tree, though they are not written from there: the header is
a text of its own. They come back in the path of a namespace that is made. -/

mutual

/-- The texts that a declaration holds: all that is written of it, and the names that paths are
made of. -/
def Decl.texts : Decl → List String
  | .scope ⟨name, _, header, ⟨entries, trailing⟩, footer⟩ =>
    [name, header, trailing, footer] ++ rowTexts entries
  | .type ⟨_, header, ⟨entries, trailing⟩, footer⟩ =>
    [header, trailing, footer] ++ rowTexts entries
  | .method m => [m.text]
  | .verbatim text => [text]

/-- The texts that an entry holds. -/
def Entry.texts : Entry → List String
  | ⟨leading, notes, decl⟩ => (leading :: notes) ++ decl.texts

/-- The texts that a row of entries holds. -/
def rowTexts : List Entry → List String
  | [] => []
  | e :: rest => e.texts ++ rowTexts rest

end

/-- The texts that a module holds. -/
def SourceModule.texts (m : SourceModule) : List String :=
  m.body.trailing :: rowTexts m.body.entries

/-- In each of the texts every line feed stands directly behind a carriage return. -/
def AllCrlf (texts : List String) : Prop :=
  ∀ s ∈ texts, OnlyCrlf s.toList

instance : DecidablePred AllCrlf :=
  fun texts => inferInstanceAs (Decidable (∀ s ∈ texts, OnlyCrlf s.toList))

theorem allCrlf_nil : AllCrlf [] :=
  fun _ h => absurd h List.not_mem_nil

@[simp] theorem allCrlf_cons {s : String} {texts : List String} :
    AllCrlf (s :: texts) ↔ OnlyCrlf s.toList ∧ AllCrlf texts :=
  List.forall_mem_cons

@[simp] theorem allCrlf_append {xs ys : List String} :
    AllCrlf (xs ++ ys) ↔ AllCrlf xs ∧ AllCrlf ys :=
  List.forall_mem_append

/-- Of a row it may be said entry by entry. -/
theorem allCrlf_rowTexts_iff {es : List Entry} :
    AllCrlf (rowTexts es) ↔ ∀ e ∈ es, AllCrlf e.texts := by
  induction es with
  | nil => simp [rowTexts, allCrlf_nil]
  | cons e rest ih => simp [rowTexts, ih]

/-- A note may be put on an entry, if it is pure. -/
theorem AllCrlf.annotated {e : Entry} (h : AllCrlf e.texts) {text : String}
    (htext : OnlyCrlf text.toList) : AllCrlf (e.annotated text).texts := by
  obtain ⟨leading, notes, decl⟩ := e
  simp only [Entry.texts, Entry.annotated, allCrlf_append, allCrlf_cons] at h ⊢
  exact ⟨⟨h.1.1, h.1.2, htext, allCrlf_nil⟩, h.2⟩

/-- Lines may be put before an entry, if they are pure. -/
theorem AllCrlf.carrying {e : Entry} (h : AllCrlf e.texts) {carried : String}
    (hcarried : OnlyCrlf carried.toList) : AllCrlf (e.carrying carried).texts := by
  obtain ⟨leading, notes, decl⟩ := e
  simp only [Entry.texts, Entry.carrying, allCrlf_append, allCrlf_cons, String.toList_append]
    at h ⊢
  exact ⟨⟨hcarried.append h.1.1, h.1.2⟩, h.2⟩

/-! ## Writing a tree

Between the texts of a tree nothing is written but line breaks before notes and the indentation
behind them, and the latter has no line feeds. -/

/-- A note is a line that ends like those of the text before the declaration, or like those of the
module. -/
theorem onlyCrlf_renderNotes {leading : String} (hleading : OnlyCrlf leading.toList)
    {notes : List String} (hnotes : AllCrlf notes) :
    OnlyCrlf (renderNotes .crlf leading notes).toList := by
  have hbreak : noteBreak .crlf leading = .crlf := by
    rw [noteBreak]
    split
    · exact hleading.ofChars_eq ‹_›
    · rfl
  have htext : (renderNotes .crlf leading notes).toList
      = notes.flatMap fun note => (renderNote .crlf leading note).toList := by
    simp [renderNotes, String.toList_join, List.flatMap_map]
  rw [htext]
  refine onlyCrlf_flatMap fun note hnote => ?_
  have hslashes : OnlyCrlf "// ".toList := by decide
  simp only [renderNote, hbreak, String.toList_append, Text.toList_text]
  exact ((hslashes.append (hnotes note hnote)).append onlyCrlf_crlf).append
    (onlyCrlf_of_not_mem (indentation_blank leading).2)

/-- A header, what stands in the braces and a footer. -/
theorem onlyCrlf_braced {header trailing footer : String} {entries : List Entry}
    (hheader : OnlyCrlf header.toList) (htrailing : OnlyCrlf trailing.toList)
    (hfooter : OnlyCrlf footer.toList)
    (hentries : OnlyCrlf (renderEntries .crlf entries).toList) :
    OnlyCrlf (header ++ Block.render .crlf ⟨entries, trailing⟩ ++ footer).toList := by
  simp only [Block.render_eq, String.toList_append]
  exact (hheader.append (hentries.append htrailing)).append hfooter

mutual

/-- A declaration, by the texts that it holds. -/
theorem Decl.onlyCrlf_render :
    ∀ d : Decl, AllCrlf d.texts → OnlyCrlf (d.render .crlf).toList
  | .scope ⟨_, _, header, ⟨entries, trailing⟩, footer⟩, h => by
    simp only [Decl.texts, allCrlf_append, allCrlf_cons] at h
    obtain ⟨⟨-, hheader, htrailing, hfooter, -⟩, hentries⟩ := h
    exact onlyCrlf_braced hheader htrailing hfooter (onlyCrlf_renderEntries entries hentries)
  | .type ⟨_, header, ⟨entries, trailing⟩, footer⟩, h => by
    simp only [Decl.texts, allCrlf_append, allCrlf_cons] at h
    obtain ⟨⟨hheader, htrailing, hfooter, -⟩, hentries⟩ := h
    exact onlyCrlf_braced hheader htrailing hfooter (onlyCrlf_renderEntries entries hentries)
  | .method _, h => (allCrlf_cons.1 h).1
  | .verbatim _, h => (allCrlf_cons.1 h).1

theorem Entry.onlyCrlf_render :
    ∀ e : Entry, AllCrlf e.texts → OnlyCrlf (e.render .crlf).toList
  | ⟨leading, notes, decl⟩, h => by
    simp only [Entry.texts, allCrlf_append, allCrlf_cons] at h
    obtain ⟨⟨hleading, hnotes⟩, hdecl⟩ := h
    simp only [Entry.render, String.toList_append]
    exact (hleading.append (onlyCrlf_renderNotes hleading hnotes)).append
      (Decl.onlyCrlf_render decl hdecl)

theorem onlyCrlf_renderEntries :
    ∀ es : List Entry, AllCrlf (rowTexts es) → OnlyCrlf (renderEntries .crlf es).toList
  | [], _ => onlyCrlf_empty
  | e :: rest, h => by
    rw [rowTexts, allCrlf_append] at h
    rw [renderEntries, String.toList_append]
    exact (Entry.onlyCrlf_render e h.1).append (onlyCrlf_renderEntries rest h.2)

end

/-- **Writing a module** keeps line breaks as they are in its texts. -/
theorem onlyCrlf_render {m : SourceModule} (hcrlf : m.crlf = true) (h : AllCrlf m.texts) :
    OnlyCrlf m.render.toList := by
  obtain ⟨language, bom, crlf, ⟨entries, trailing⟩⟩ := m
  obtain rfl : crlf = true := hcrlf
  rw [SourceModule.texts, allCrlf_cons] at h
  have hbom : OnlyCrlf (if bom = true then "\uFEFF" else "").toList := by cases bom <;> decide
  simp only [SourceModule.render, SourceModule.lineBreak, Block.render_eq, String.toList_append]
  exact hbom.append ((onlyCrlf_renderEntries entries h.2).append h.1)

/-! ## Editing a type

An edit adds texts to a tree and takes some out of it. What is taken out does no harm; what is added
are notes, appended entries and the lines handed on from dropped ones. -/

/-- What an edit brings has such line breaks only. -/
structure TypeEdit.OnlyCrlf (edit : TypeEdit) : Prop where
  note : ∀ position text, edit.fate? position = some (.annotate text) → Text.OnlyCrlf text.toList
  appended : AllCrlf (rowTexts edit.appended)

theorem TypeEdit.onlyCrlf_empty : TypeEdit.empty.OnlyCrlf :=
  ⟨fun _ _ h => by simp [TypeEdit.empty, TypeEdit.fate?] at h, allCrlf_nil⟩

section

variable {edit : TypeEdit} {es : List Entry} {carried : String}

/-- What stays of a row and what is left over behind it, whatever may be on hand before it. -/
theorem allCrlf_survivors (hedit : edit.OnlyCrlf) (hes : AllCrlf (rowTexts es)) (position : Nat)
    (hcarried : OnlyCrlf carried.toList) :
    AllCrlf (rowTexts (edit.survivors position carried es).1)
      ∧ OnlyCrlf (edit.survivors position carried es).2.toList := by
  induction es generalizing position carried with
  | nil => exact ⟨allCrlf_nil, hcarried⟩
  | cons e rest ih =>
    rw [rowTexts, allCrlf_append] at hes
    obtain ⟨he, hrest⟩ := hes
    -- Behind an entry that stays nothing is carried.
    obtain ⟨hkept, hleft⟩ := ih hrest (position + 1) onlyCrlf_empty
    rw [TypeEdit.survivors]
    cases hfate : edit.fate? position with
    | none => exact ⟨allCrlf_append.2 ⟨he.carrying hcarried, hkept⟩, hleft⟩
    | some fate =>
      cases fate with
      | drop =>
        have hleading : OnlyCrlf e.leading.toList := by
          obtain ⟨leading, notes, decl⟩ := e
          exact (allCrlf_cons.1 (allCrlf_append.1 he).1).1
        refine ih hrest (position + 1) ?_
        rw [String.toList_append]
        exact hcarried.append hleading.directiveLines
      | annotate text =>
        have hnoted := he.annotated (hedit.note position text hfate)
        exact ⟨allCrlf_append.2 ⟨hnoted.carrying hcarried, hkept⟩, hleft⟩

/-- What is left over may go into the next entry, or stay. -/
theorem allCrlf_carryInto (hes : AllCrlf (rowTexts es)) (hcarried : OnlyCrlf carried.toList) :
    AllCrlf (rowTexts (carryInto carried es).1)
      ∧ OnlyCrlf (carryInto carried es).2.toList := by
  cases es with
  | nil => exact ⟨allCrlf_nil, hcarried⟩
  | cons e rest =>
    rw [rowTexts, allCrlf_append] at hes
    exact ⟨allCrlf_append.2 ⟨hes.1.carrying hcarried, hes.2⟩, onlyCrlf_empty⟩

/-- **Editing a type** keeps the line breaks of its texts. -/
theorem allCrlf_applyTo (hedit : edit.OnlyCrlf) {t : TypeDecl} (ht : AllCrlf (Decl.type t).texts) :
    AllCrlf (Decl.type (edit.applyTo t)).texts := by
  obtain ⟨name, header, ⟨entries, trailing⟩, footer⟩ := t
  simp only [Decl.texts, allCrlf_append, allCrlf_cons] at ht
  obtain ⟨⟨hheader, htrailing, hfooter, -⟩, hentries⟩ := ht
  obtain ⟨hkept, hleft⟩ := allCrlf_survivors hedit hentries 0 onlyCrlf_empty
  obtain ⟨hadded, hmore⟩ := allCrlf_carryInto hedit.appended hleft
  have hrow := allCrlf_rowTexts_iff.2 (List.forall_mem_append.2
    ⟨allCrlf_rowTexts_iff.1 hkept, allCrlf_rowTexts_iff.1 hadded⟩)
  simp only [TypeEdit.applyTo, Decl.texts, allCrlf_append, allCrlf_cons, String.toList_append]
  exact ⟨⟨hheader, hmore.append htrailing, hfooter, allCrlf_nil⟩, hrow⟩

end

/-! ## Composing a module

The composer is replaced by its description as changes at places of the tree, for which a row is
followed by its kinds of entries without any tables. -/

/-- What is changed brings such line breaks only. -/
structure Changes.OnlyCrlf (c : Changes) : Prop where
  edit : ∀ place edit, c.edit? place = some edit → edit.OnlyCrlf
  run : ∀ place, ∀ e ∈ (c.run? place).getD [], AllCrlf e.texts

theorem Changes.OnlyCrlf.under {c : Changes} (h : c.OnlyCrlf) (position : Nat) :
    (c.under position).OnlyCrlf :=
  ⟨fun place => h.edit (position :: place), fun place => h.run (position :: place)⟩

/-- **Changing a row** keeps the line breaks of its texts. -/
theorem allCrlf_changedRow {c : Changes} (hc : c.OnlyCrlf) (position : Nat) {es : List Entry}
    (hes : AllCrlf (rowTexts es)) : AllCrlf (rowTexts (changedRow c position es)) := by
  induction es using row_induction generalizing c position with
  | nil => exact allCrlf_nil
  | scope leading notes name form header entries trailing footer rest ihBody ihRest =>
    simp only [rowTexts, Entry.texts, Decl.texts, allCrlf_append] at hes
    obtain ⟨⟨howns, hpieces, hentries⟩, hrest⟩ := hes
    -- Only the body of a namespace with braces gets more entries.
    have hgets : ∀ e ∈ form.gets ((c.under position).run? []), AllCrlf e.texts := by
      cases form with
      | file => exact fun e he => absurd he List.not_mem_nil
      | block => exact (hc.under position).run []
    have hbody := allCrlf_rowTexts_iff.1 (ihBody (hc.under position) 0 hentries)
    simp only [changedRow, Entry.changed, rowTexts, Entry.texts, Decl.texts, allCrlf_append]
    exact ⟨⟨howns, hpieces, allCrlf_rowTexts_iff.2 (List.forall_mem_append.2 ⟨hbody, hgets⟩)⟩,
      ihRest hc (position + 1) hrest⟩
  | type leading notes t rest ih =>
    simp only [rowTexts, Entry.texts, allCrlf_append] at hes
    obtain ⟨⟨howns, ht⟩, hrest⟩ := hes
    have hedit : (((c.under position).edit? []).getD .empty).OnlyCrlf := by
      cases h : (c.under position).edit? [] with
      | none => exact TypeEdit.onlyCrlf_empty
      | some edit => exact (hc.under position).edit [] edit h
    simp only [changedRow, Entry.changed, rowTexts, Entry.texts, allCrlf_append]
    exact ⟨⟨howns, allCrlf_applyTo hedit ht⟩, ih hc (position + 1) hrest⟩
  | method leading notes m rest ih =>
    rw [rowTexts, allCrlf_append] at hes
    exact allCrlf_append.2 ⟨hes.1, ih hc (position + 1) hes.2⟩
  | verbatim leading notes text rest ih =>
    rw [rowTexts, allCrlf_append] at hes
    exact allCrlf_append.2 ⟨hes.1, ih hc (position + 1) hes.2⟩

/-- What a plan brings has such line breaks only. -/
structure EditPlan.OnlyCrlf (plan : EditPlan) : Prop where
  edit : ∀ pair ∈ plan.edits, pair.2.OnlyCrlf
  path : ∀ i ∈ plan.insertions, Text.OnlyCrlf i.path.toList
  entry : ∀ i ∈ plan.insertions, AllCrlf i.entry.texts

section

variable {m : SourceModule} {plan : EditPlan}

/-- The changes at places bring what the plan does. -/
theorem EditPlan.OnlyCrlf.changes (h : plan.OnlyCrlf) : (plan.changes m).OnlyCrlf := by
  refine ⟨fun place edit hedit => ?_, fun place e he => ?_⟩
  · obtain ⟨name, -, -, hvalue⟩ := EditPlan.edit?_changes.1 hedit
    exact h.edit _ (mem_of_valueOf? hvalue)
  · obtain ⟨i, hi, rfl⟩ := EditPlan.exists_insertion_of_run he
    exact h.entry i hi

/-- A new namespace has the line breaks of the module. -/
theorem allCrlf_newNamespace {path : String} (hpath : OnlyCrlf path.toList) {entries : List Entry}
    (hentries : AllCrlf (rowTexts entries)) :
    AllCrlf (newNamespace .crlf path entries).texts := by
  have hheader : OnlyCrlf ("namespace " ++ path ++ "\r\n" ++ "\x7b").toList := by
    simp only [String.toList_append]
    have hword : OnlyCrlf "namespace ".toList := by decide
    have hbreak : OnlyCrlf "\r\n".toList := by decide
    exact ((hword.append hpath).append hbreak).append (by decide)
  simp only [newNamespace, Text.LineBreak.text, Entry.texts, Decl.texts, allCrlf_append,
    allCrlf_cons]
  exact ⟨⟨by decide, allCrlf_nil⟩,
    ⟨hpath, hheader, by decide, by decide, allCrlf_nil⟩, hentries⟩

/-- What is put at the end is pure, whether in a namespace that is made for it or not. -/
theorem allCrlf_endEntries (hcrlf : m.crlf = true) (h : plan.OnlyCrlf)
    {group : String × List Entry} (hgroup : group ∈ groupInsertions plan.insertions) :
    ∀ e ∈ endEntries m group, AllCrlf e.texts := by
  have hentries : ∀ e ∈ group.2, AllCrlf e.texts := by
    intro e he
    obtain ⟨i, hi, -, rfl⟩ := mem_insertions_of_group hgroup he
    exact h.entry i hi
  intro e he
  rw [endEntries] at he
  split at he
  · exact hentries e he
  · obtain ⟨i, hi, hpath⟩ := exists_insertion_of_group (List.mem_map_of_mem hgroup)
    rw [List.mem_singleton.1 he, SourceModule.lineBreak, if_pos hcrlf]
    exact allCrlf_newNamespace (hpath ▸ h.path i hi) (allCrlf_rowTexts_iff.2 hentries)

/-- **Composing a module** keeps the line breaks of its texts. -/
theorem allCrlf_compose (hcrlf : m.crlf = true) (hm : AllCrlf m.texts) (hkeyed : Keyed plan.edits)
    (h : plan.OnlyCrlf) : AllCrlf (m.compose plan).texts := by
  rw [SourceModule.texts, allCrlf_cons] at hm
  have hrow := allCrlf_rowTexts_iff.1 (allCrlf_changedRow (h.changes (m := m)) 0 hm.2)
  rw [compose_eq m plan hkeyed, SourceModule.texts, allCrlf_cons]
  refine ⟨hm.1, allCrlf_rowTexts_iff.2 (List.forall_mem_append.2 ⟨hrow, fun e he => ?_⟩)⟩
  obtain ⟨group, hgroup, he⟩ := List.mem_flatMap.1 he
  exact allCrlf_endEntries hcrlf h (mem_of_mem_withoutAll hgroup) e he

end

/-! ## The merge

What a merge plans comes from the second input, apart from the notes. So that input's texts have to
be pure as well, but it does not matter which kind of line break was found for it as a whole. -/

/-- A path is made of names and dots. -/
theorem onlyCrlf_qualify {path name : String} (hpath : OnlyCrlf path.toList)
    (hname : OnlyCrlf name.toList) : OnlyCrlf (qualify path name).toList := by
  rw [qualify]
  split
  · exact hname
  · have hdot : OnlyCrlf ".".toList := by decide
    rw [String.toList_append, String.toList_append]
    exact (hpath.append hdot).append hname

/-- The types of a row have the row's line breaks, and so have their paths. -/
theorem allCrlf_types {es : List Entry} (h : AllCrlf (rowTexts es)) {path : String}
    (hpath : OnlyCrlf path.toList) :
    ∀ t ∈ typesUnder path es, OnlyCrlf t.path.toList ∧ AllCrlf t.entry.texts := by
  induction es using row_induction generalizing path with
  | nil => exact fun t ht => absurd ht List.not_mem_nil
  | scope leading notes name form header entries trailing footer rest ihBody ihRest =>
    simp only [rowTexts, Entry.texts, Decl.texts, allCrlf_append, allCrlf_cons] at h
    obtain ⟨⟨-, ⟨hname, -⟩, hentries⟩, hrest⟩ := h
    have hinner := onlyCrlf_qualify hpath hname
    refine List.forall_mem_append.2 ⟨ihBody hentries hinner, ?_⟩
    cases form with
    | block => exact ihRest hrest hpath
    | file => exact ihRest hrest hinner
  | type leading notes t rest ih =>
    rw [rowTexts, allCrlf_append] at h
    exact List.forall_mem_cons.2 ⟨⟨hpath, h.1⟩, ih h.2 hpath⟩
  | method leading notes m rest ih =>
    rw [rowTexts, allCrlf_append] at h
    exact ih h.2 hpath
  | verbatim leading notes text rest ih =>
    rw [rowTexts, allCrlf_append] at h
    exact ih h.2 hpath

/-- The members of a type have no other texts than the type. -/
theorem AllCrlf.member {t : IndexedType} (h : AllCrlf t.entry.texts) {n : Member}
    (hn : n ∈ t.type.members) : AllCrlf n.entry.texts := by
  obtain ⟨path, leading, notes, ⟨name, header, ⟨entries, trailing⟩, footer⟩⟩ := t
  simp only [IndexedType.entry, Entry.texts, Decl.texts, allCrlf_append] at h
  exact allCrlf_rowTexts_iff.1 h.2.2 _ (List.fst_mem_of_mem_zipIdx (mem_membersFrom_iff.1 hn))

/-- In a note only the tag could hold a line feed. -/
theorem onlyCrlf_note {tag : String} (h : OnlyCrlf tag.toList) (id : Nat) (p : Provenance) :
    OnlyCrlf (note tag id p).toList := by
  have hid : OnlyCrlf (toString id).toList := by
    refine onlyCrlf_of_not_mem fun hmem => ?_
    rw [Nat.toString_eq_ofList_toDigits, String.toList_ofList] at hmem
    exact absurd (Nat.isDigit_of_mem_toDigits (by decide) (by decide) hmem) (by decide)
  have hhash : OnlyCrlf " #".toList := by decide
  have hcolon : OnlyCrlf ": ".toList := by decide
  have hp : OnlyCrlf p.text.toList := by cases p <;> decide
  simp only [note, String.toList_append]
  exact (((h.append hhash).append hid).append hcolon).append hp

/-- What a merge plans is pure: notes by the tag, entries and paths by the second input. -/
theorem onlyCrlf_plan {tag : String} (htag : OnlyCrlf tag.toList)
    (resolutions : Option Resolutions) (first : SourceModule) {second : SourceModule}
    (hsecond : AllCrlf second.texts) :
    (merge tag resolutions first second).edits.OnlyCrlf := by
  have hkeyed := Resolver.keyed_edits_resolve ⟨tag, resolutions⟩ (Index.ofModule first)
    (Index.ofModule second)
  have htypes : ∀ t ∈ (Index.ofModule second).types,
      OnlyCrlf t.path.toList ∧ AllCrlf t.entry.texts :=
    allCrlf_types (allCrlf_cons.1 hsecond).2 (by decide)
  refine ⟨fun pair hpair => ⟨fun position text hfate => ?_, allCrlf_rowTexts_iff.2 fun e he => ?_⟩,
    fun i hi => ?_, fun i hi => ?_⟩
  · rw [← EditPlan.edit_of_mem hkeyed hpair, Resolver.fate?_edit_resolve] at hfate
    obtain ⟨c, -, hc⟩ := List.exists_of_findSome?_eq_some hfate
    rw [Resolver.fate_annotate ⟨tag, resolutions⟩ hc]
    exact onlyCrlf_note htag _ _
  · rw [← EditPlan.edit_of_mem hkeyed hpair] at he
    obtain ⟨t, ht, n, hn, id, p, rfl⟩ := Resolver.exists_method_of_mem_appended _ he
    exact ((htypes t ht).2.member hn).annotated (onlyCrlf_note htag id p)
  · obtain ⟨t, ht, -, id, rfl⟩ := Resolver.exists_type_of_mem_insertions _ hi
    exact (htypes t ht).1
  · obtain ⟨t, ht, -, id, rfl⟩ := Resolver.exists_type_of_mem_insertions _ hi
    exact (htypes t ht).2.annotated (onlyCrlf_note htag id _)

/-- **Line breaks stay pure.** If the first module ends its lines with a carriage return and a line
feed, and no text of the two modules has a line feed without a carriage return directly before it,
then neither has the text of the merged module, whatever the user chose. -/
theorem onlyCrlf_merge (tag : String) (resolutions : Option Resolutions)
    (first second : SourceModule) (htag : '\n' ∉ tag.toList) (hcrlf : first.crlf = true)
    (hfirst : AllCrlf first.texts) (hsecond : AllCrlf second.texts) :
    OnlyCrlf (merge tag resolutions first second).result.render.toList :=
  onlyCrlf_render hcrlf (allCrlf_compose hcrlf hfirst
    (Resolver.keyed_edits_resolve ⟨tag, resolutions⟩ _ _)
    (onlyCrlf_plan (onlyCrlf_of_not_mem htag) resolutions first hsecond))

/-- A preprocessor line is handed on, notes stand behind texts without line breaks, and a namespace
is new. -/
theorem onlyCrlf_merge_sample :
    let method : Decl := .method ⟨"F", "()", "", "void F() \x7b\x7d"⟩
    let first : SourceModule := ⟨.csharp, false, true,
      ⟨[⟨"", [], .type ⟨"T", "class T\r\n\x7b",
        ⟨[⟨"\r\n  #if A\r\n  ", [], method⟩], "\r\n"⟩, "\x7d"⟩⟩], "\r\n"⟩⟩
    let second : SourceModule := ⟨.csharp, false, false,
      ⟨[⟨"", [], .type ⟨"T", "class T \x7b", ⟨[⟨" ", [], method⟩], " "⟩, "\x7d"⟩⟩,
        ⟨" ", [], .scope ⟨"N", .block, "namespace N \x7b",
          ⟨[⟨" ", [], .type ⟨"U", "class U \x7b", ⟨[], " "⟩, "\x7d"⟩⟩], " "⟩, "\x7d"⟩⟩], ""⟩⟩
    let written := (merge "merge" none first second).result.render
    '\n' ∉ "merge".toList ∧ first.crlf = true ∧ AllCrlf first.texts ∧ AllCrlf second.texts
      ∧ written = "class T\r\n\x7b\r\n  #if A // merge #1: duplicate, kept from second input\r\n"
        ++ "void F() \x7b\x7d\r\n\x7d\r\n\r\nnamespace N\r\n\x7b"
        ++ " // merge #2: added from second input\r\n class U \x7b \x7d\r\n\x7d\r\n"
      ∧ OnlyCrlf written.toList := by
  intro method first second written
  have htag : '\n' ∉ "merge".toList := by decide
  have hfirst : AllCrlf first.texts := by decide +kernel
  have hsecond : AllCrlf second.texts := by decide +kernel
  exact ⟨htag, rfl, hfirst, hsecond, by decide +kernel,
    onlyCrlf_merge "merge" none first second htag rfl hfirst hsecond⟩

end ModuleMerge
