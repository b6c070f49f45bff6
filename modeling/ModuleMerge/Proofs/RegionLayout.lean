import ModuleMerge.Declaration.Rendering
import ModuleMerge.Proofs.RegionMarks

/-!
# Region lines of a tree

The text of a tree has the region lines of its pieces, as long as the pieces meet where files let
them meet: declarations start and end in the middle of lines that are no region lines, and what
stands between them is blank or decided where it ends. `laidOut` says this of every node.

What a tree is written as is longer than its pieces: notes are put in before declarations, each on a
line that starts with slashes. They have no marks, but they do change where lines begin. So a
declaration has to have the same marks at the start of a line and behind other text on one. By
`MarksOfText` it does: the line on which it starts has no mark, and whatever follows the declaration
adds its later lines only.

The first line of a file is the one exception to all of this, as no other line has nothing before
it. It is treated by itself at the end, together with the byte order mark that may stand there.

* `Decl.marks`, `Entry.marks` and `rowMarks` put together the marks of the pieces.
* `lateMarks_renderEntries` says that these are the marks of the written text, and
  `regionMarks_render` says it for a whole file.
-/

set_option autoImplicit false

namespace ModuleMerge

open Text (RegionMark regionMarks lateMarks lineMark? firstLine settled solid handsOn endsFirm)

/-! ## Marks of trees -/

/-- The marks of a text that stands behind other text. -/
def textMarks (s : String) : List RegionMark :=
  lateMarks s.toList

mutual

/-- The marks of the pieces of a declaration. -/
def Decl.marks : Decl → List RegionMark
  | .scope ⟨_, _, header, ⟨entries, trailing⟩, footer⟩ =>
    textMarks header ++ (rowMarks entries ++ textMarks (trailing ++ footer))
  | .type ⟨_, header, ⟨entries, trailing⟩, footer⟩ =>
    textMarks header ++ (rowMarks entries ++ textMarks (trailing ++ footer))
  | .method m => textMarks m.text
  | .verbatim text => textMarks text

/-- The marks of the pieces of an entry. -/
def Entry.marks : Entry → List RegionMark
  | ⟨leading, _, decl⟩ => textMarks leading ++ decl.marks

/-- The marks of the pieces of a row of entries. -/
def rowMarks : List Entry → List RegionMark
  | [] => []
  | e :: rest => e.marks ++ rowMarks rest

end

/-! ## Layout

The conditions are tests on the pieces one by one, so they can be run on any tree. Most are about
seams, where a line could come out with a mark that neither piece has. `handsOn` is for members that
are dropped, as the region lines before them go on to what follows. -/

/-- A text without a line feed. -/
def oneLine (s : String) : Bool :=
  !s.toList.contains '\n'

mutual

/-- Whether the pieces of a declaration meet within decided lines. -/
def Decl.laidOut : Decl → Bool
  | .scope ⟨name, _, header, ⟨entries, trailing⟩, footer⟩ =>
    oneLine name && solid header.toList && rowLaidOut entries
      && endsFirm (trailing ++ footer).toList
  | .type ⟨_, header, ⟨entries, trailing⟩, footer⟩ =>
    solid header.toList && rowLaidOut entries && endsFirm (trailing ++ footer).toList
  | .method m => solid m.text.toList
  | .verbatim text => solid text.toList

/-- Whether an entry is laid out: what stands before the declaration is settled, and its region
lines are lines of their own. -/
def Entry.laidOut : Entry → Bool
  | ⟨leading, notes, decl⟩ =>
    settled leading.toList && handsOn leading.toList && notes.all oneLine && decl.laidOut

/-- Whether every entry of a row is laid out. -/
def rowLaidOut : List Entry → Bool
  | [] => true
  | e :: rest => e.laidOut && rowLaidOut rest

end

theorem rowLaidOut_iff {es : List Entry} : rowLaidOut es = true ↔ ∀ e ∈ es, e.laidOut = true := by
  induction es with
  | nil => simp [rowLaidOut]
  | cons e rest ih => simp [rowLaidOut, ih]

/-! ## Notes

A note is slashes, the text of the note, a line break and the indentation of what follows. Its own
text has to be of one line; a second one would be a line of the program. -/

theorem indentation_blank (leading : String) :
    (indentation leading).toList.all Text.isBlank = true ∧ '\n' ∉ (indentation leading).toList := by
  rw [indentation]
  split
  · rename_i hline
    rw [List.all_eq_true] at hline
    rw [String.toList_ofList]
    refine ⟨List.all_eq_true.2 fun c hc => ?_, fun hc => ?_⟩
    · have hblank := hline c hc
      simp only [Bool.or_eq_true, decide_eq_true_eq] at hblank
      rcases hblank with rfl | rfl <;> decide
    · exact absurd (hline _ hc) (by decide)
  · exact ⟨rfl, by simp⟩

/-- A note is a line of its own, without a mark. -/
theorem marks_renderNote (b : Text.LineBreak) (leading : String) {note : String}
    (h : oneLine note = true) (cs : List Char) :
    regionMarks ((renderNote b leading note).toList ++ cs) = regionMarks cs
      ∧ lateMarks ((renderNote b leading note).toList ++ cs) = regionMarks cs := by
  obtain ⟨hblank, hindent⟩ := indentation_blank leading
  have hnote : '\n' ∉ note.toList := by simpa [oneLine] using h
  have hslashes : '\n' ∉ "// ".toList := by decide
  have htext : (renderNote b leading note).toList ++ cs
      = "// ".toList ++ (note.toList ++ ((noteBreak b leading).chars
        ++ ((indentation leading).toList ++ cs))) := by
    simp only [renderNote, String.toList_append, Text.toList_text, List.append_assoc]
  have hafter : regionMarks ((indentation leading).toList ++ cs) = regionMarks cs := by
    have hmarks := Text.marksAfter_blank_append hblank [] cs
    rw [List.append_nil] at hmarks
    rw [Text.regionMarks_append hindent, hmarks, Text.marksAfter_nil]
  have hlate : lateMarks ((renderNote b leading note).toList ++ cs) = regionMarks cs := by
    rw [htext, Text.lateMarks_append_of_not_mem hslashes, Text.lateMarks_append_of_not_mem hnote,
      Text.lateMarks_lineBreak_append, hafter]
  refine ⟨?_, hlate⟩
  rw [← hlate, htext, Text.regionMarks_append hslashes, Text.marksAfter_of_decided (by decide),
    Text.lateMarks_append_of_not_mem hslashes]
  rfl

/-- So the notes on a declaration put no mark before it, and none is lost behind them. -/
theorem marks_renderNotes (b : Text.LineBreak) (leading : String) {notes : List String}
    (h : notes.all oneLine = true) {cs : List Char} (hcs : regionMarks cs = lateMarks cs) :
    regionMarks ((renderNotes b leading notes).toList ++ cs) = lateMarks cs
      ∧ lateMarks ((renderNotes b leading notes).toList ++ cs) = lateMarks cs := by
  induction notes with
  | nil => exact ⟨hcs, rfl⟩
  | cons note rest ih =>
    rw [List.all_cons, Bool.and_eq_true] at h
    obtain ⟨hregion, -⟩ := ih h.2
    have htext : (renderNotes b leading (note :: rest)).toList ++ cs
        = (renderNote b leading note).toList ++ ((renderNotes b leading rest).toList ++ cs) := by
      simp [renderNotes, String.toList_join]
    obtain ⟨hall, hlate⟩ :=
      marks_renderNote b leading h.1 ((renderNotes b leading rest).toList ++ cs)
    rw [htext, hall, hlate, hregion]
    exact ⟨rfl, rfl⟩

/-! ## The marks of the written text -/

/-- What a declaration needs to be written behind settled text: its first line has no mark, and
its later lines have the marks of its pieces. -/
def MarksOfText (marks : List RegionMark) (text : String) : Prop :=
  ∀ cs, regionMarks (text.toList ++ cs) = marks ++ lateMarks cs
    ∧ lateMarks (text.toList ++ cs) = marks ++ lateMarks cs

theorem marksOfText_solid {text : String} (h : solid text.toList = true) :
    MarksOfText (textMarks text) text := by
  intro cs
  have hlate : lateMarks (text.toList ++ cs) = textMarks text ++ lateMarks cs :=
    Text.firm_of_solid h cs
  exact ⟨(Text.regionMarks_solid h cs).trans hlate, hlate⟩

theorem MarksOfText.append {marks : List RegionMark} {text more : String}
    (h : MarksOfText marks text) {moreMarks : List RegionMark}
    (hmore : ∀ cs, lateMarks (more.toList ++ cs) = moreMarks ++ lateMarks cs) :
    MarksOfText (marks ++ moreMarks) (text ++ more) := by
  intro cs
  obtain ⟨hall, hlate⟩ := h (more.toList ++ cs)
  rw [String.toList_append, List.append_assoc, hall, hlate, hmore, List.append_assoc]
  exact ⟨rfl, rfl⟩

/-- Settled text, notes and a declaration, one after another. -/
theorem lateMarks_noted (b : Text.LineBreak) (source : String) {leading text : String}
    {notes : List String} {marks : List RegionMark} (hleading : settled leading.toList = true)
    (hnotes : notes.all oneLine = true) (htext : MarksOfText marks text) (cs : List Char) :
    lateMarks (leading.toList ++ ((renderNotes b source notes).toList ++ (text.toList ++ cs)))
      = textMarks leading ++ (marks ++ lateMarks cs) := by
  obtain ⟨hall, hlate⟩ := htext cs
  obtain ⟨hnotesAll, hnotesLate⟩ := marks_renderNotes b source hnotes (hall.trans hlate.symm)
  rw [Text.lateMarks_settled hleading (hnotesAll.trans hnotesLate.symm), hnotesLate, hlate]
  rfl

/-- A header, a row of entries and what closes it. -/
theorem marksOfText_braced (b : Text.LineBreak) {header trailing footer : String}
    {entries : List Entry} {marks : List RegionMark} (hheader : solid header.toList = true)
    (hentries : ∀ cs, lateMarks ((renderEntries b entries).toList ++ cs) = marks ++ lateMarks cs)
    (hfooter : endsFirm (trailing ++ footer).toList = true) :
    MarksOfText (textMarks header ++ (marks ++ textMarks (trailing ++ footer)))
      (header ++ Block.render b ⟨entries, trailing⟩ ++ footer) := by
  rw [String.append_assoc]
  refine (marksOfText_solid hheader).append fun cs => ?_
  have hclose := Text.firm_of_endsFirm hfooter cs
  rw [Block.render_eq, String.append_assoc, String.toList_append, List.append_assoc, hentries,
    hclose, List.append_assoc]
  rfl

-- The recursion is that of the definitions: a declaration, an entry and a row, each by its parts.
mutual

theorem Decl.marks_render (b : Text.LineBreak) :
    ∀ d : Decl, d.laidOut = true → MarksOfText d.marks (d.render b)
  | .scope ⟨_, _, header, ⟨entries, trailing⟩, footer⟩, h => by
    simp only [Decl.laidOut, Bool.and_eq_true] at h
    exact marksOfText_braced b h.1.1.2 (lateMarks_renderEntries b entries h.1.2) h.2
  | .type ⟨_, header, ⟨entries, trailing⟩, footer⟩, h => by
    simp only [Decl.laidOut, Bool.and_eq_true] at h
    exact marksOfText_braced b h.1.1 (lateMarks_renderEntries b entries h.1.2) h.2
  | .method _, h => marksOfText_solid h
  | .verbatim _, h => marksOfText_solid h

theorem Entry.lateMarks_render (b : Text.LineBreak) :
    ∀ e : Entry, e.laidOut = true →
      ∀ cs, lateMarks ((e.render b).toList ++ cs) = e.marks ++ lateMarks cs
  | ⟨leading, notes, decl⟩, h => by
    intro cs
    simp only [Entry.laidOut, Bool.and_eq_true] at h
    have hnoted := lateMarks_noted b leading h.1.1.1 h.1.2 (Decl.marks_render b decl h.2) cs
    simpa only [Entry.render, Entry.marks, String.toList_append, List.append_assoc] using hnoted

/-- **The text of a row of entries has the marks of its pieces**, behind whatever it stands. -/
theorem lateMarks_renderEntries (b : Text.LineBreak) :
    ∀ es : List Entry, rowLaidOut es = true →
      ∀ cs, lateMarks ((renderEntries b es).toList ++ cs) = rowMarks es ++ lateMarks cs
  | [], _ => fun _ => rfl
  | e :: rest, h => by
    intro cs
    rw [rowLaidOut, Bool.and_eq_true] at h
    rw [renderEntries, String.toList_append, List.append_assoc, Entry.lateMarks_render b e h.1,
      lateMarks_renderEntries b rest h.2, rowMarks, List.append_assoc]

end

/-! ## Files -/

/-- The text that a block starts with. -/
def Block.start : Block → String
  | ⟨[], trailing⟩ => trailing
  | ⟨e :: _, _⟩ => e.leading

/-- The mark of the first line of a file; a line behind a byte order mark has none. -/
def startMark (bom : Bool) (body : Block) : List RegionMark :=
  if bom then [] else (lineMark? (firstLine body.start.toList)).toList

/-- The first line of a file is that of the text before its first declaration. -/
theorem firstMark_noted (b : Text.LineBreak) {leading text : String} {notes : List String}
    {marks : List RegionMark} (hleading : settled leading.toList = true)
    (hnotes : notes.all oneLine = true) (htext : MarksOfText marks text) (cs : List Char) :
    (lineMark? (firstLine (leading.toList
        ++ ((renderNotes b leading notes).toList ++ (text.toList ++ cs))))).toList
      = (lineMark? (firstLine leading.toList)).toList := by
  obtain ⟨hall, hlate⟩ := htext cs
  obtain ⟨hnotesAll, hnotesLate⟩ := marks_renderNotes b leading hnotes (hall.trans hlate.symm)
  have hunmarked := hnotesAll.trans hnotesLate.symm
  have hregion := Text.regionMarks_settled hleading hunmarked
  rw [Text.regionMarks_eq_firstLine, Text.lateMarks_settled hleading hunmarked,
    Text.regionMarks_eq_firstLine leading.toList, List.append_assoc] at hregion
  exact List.append_cancel_right hregion

theorem firstMark_renderEntries (b : Text.LineBreak) {es : List Entry}
    (h : rowLaidOut es = true) (trailing : String) :
    (lineMark? (firstLine ((renderEntries b es).toList ++ trailing.toList))).toList
      = (lineMark? (firstLine (Block.start ⟨es, trailing⟩).toList)).toList := by
  cases es with
  | nil => rfl
  | cons e rest =>
    rw [rowLaidOut, Bool.and_eq_true] at h
    obtain ⟨leading, notes, decl⟩ := e
    have he := h.1
    simp only [Entry.laidOut, Bool.and_eq_true] at he
    have hfirst := firstMark_noted b he.1.1.1 he.1.2 (Decl.marks_render b decl he.2)
      ((renderEntries b rest).toList ++ trailing.toList)
    simpa [renderEntries, Entry.render, String.toList_append, Block.start] using hfirst

/-- What stands behind a byte order mark is not at the start of its line. -/
theorem regionMarks_file (bom : Bool) (text : String) :
    regionMarks ((if bom then "\uFEFF" else "") ++ text).toList
      = (if bom then [] else (lineMark? (firstLine text.toList)).toList)
        ++ lateMarks text.toList := by
  rw [String.toList_append]
  cases bom with
  | true =>
    exact (Text.regionMarks_append (by decide) _).trans (Text.marksAfter_of_decided (by decide) _)
  | false => exact Text.regionMarks_eq_firstLine _

/-- **The text of a file has the marks of its pieces.** -/
theorem regionMarks_render {m : SourceModule} (h : rowLaidOut m.body.entries = true) :
    regionMarks m.render.toList
      = startMark m.bom m.body ++ (rowMarks m.body.entries ++ textMarks m.body.trailing) := by
  obtain ⟨language, bom, crlf, ⟨entries, trailing⟩⟩ := m
  rw [SourceModule.render, regionMarks_file, Block.render_eq, String.toList_append,
    firstMark_renderEntries _ h, lateMarks_renderEntries _ entries h]
  rfl

end ModuleMerge
