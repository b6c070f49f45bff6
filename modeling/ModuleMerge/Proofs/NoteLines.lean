import ModuleMerge.Proofs.PartialSettings
import ModuleMerge.Proofs.RegionLayout
import ModuleMerge.Proofs.Tags

/-!
# Notes as comments

A note is printed as a line comment before its declaration. That it ends where its line ends, and
that nothing of it is read as program text, depends on the text of the note alone, and so on the tag
of the pass, which may be any text.

To speak of the place where a note is printed, it is not enough to find its text somewhere in the
output. The same text may stand in the program, and a note with a line feed looks like a note and a
line of code. So the output is not searched: it is put together from pieces that know what they are,
and the pieces are got from the tree in the order of printing. What is the module's own is then seen
to be what would be printed without any notes, so it is the same for all tags.

What ends a line differs between languages, and a comment ends where the line does. Of the
characters of a note only the tag's are in question, for an id has digits and a provenance has
letters, commas and blanks.

* `SourceModule.printed` cuts a printed module into its own text and its notes. The pieces make the
  printed module (`printedText_printed`), its own pieces make the printed module without notes
  (`printed_withoutNotes`), and the others are the notes of its entries (`mem_printed_iff`).
* `IsLineComment` says that a text is one line comment, with the blanks that indent what follows.
* `isLineComment_note_iff` says when a note of a pass is printed as one.
* `printed_notes_of_merge` is the main result.
-/

set_option autoImplicit false

namespace ModuleMerge

/-! ## Pieces of a printed module -/

/-- A piece of a printed module. -/
inductive Printed where
  /-- Text of the module itself. -/
  | own (text : String)
  /-- A note on an entry with a leading text. -/
  | note (leading text : String)
  deriving DecidableEq, Repr

namespace Printed

/-- Whether a piece is no note. -/
def isOwn : Printed → Bool
  | own _ => true
  | note _ _ => false

/-- The text that is printed for a piece. -/
def text (moduleBreak : Text.LineBreak) : Printed → String
  | own text => text
  | note leading text => renderNote moduleBreak leading text

end Printed

/-- The text that is printed for a row of pieces. -/
def printedText (moduleBreak : Text.LineBreak) (pieces : List Printed) : String :=
  String.join (pieces.map (Printed.text moduleBreak))

mutual

/-- The pieces of a declaration. -/
def Decl.printed : Decl → List Printed
  | .scope ⟨_, _, header, ⟨entries, trailing⟩, footer⟩ =>
    .own header :: (rowPrinted entries ++ [.own trailing, .own footer])
  | .type ⟨_, header, ⟨entries, trailing⟩, footer⟩ =>
    .own header :: (rowPrinted entries ++ [.own trailing, .own footer])
  | .method m => [.own m.text]
  | .verbatim text => [.own text]

/-- The pieces of a row of entries. -/
def rowPrinted : List Entry → List Printed
  | [] => []
  | ⟨leading, notes, decl⟩ :: rest =>
    .own leading :: (notes.map (Printed.note leading) ++ (decl.printed ++ rowPrinted rest))

end

/-- The pieces of a module. -/
def SourceModule.printed (m : SourceModule) : List Printed :=
  .own (if m.bom then "\uFEFF" else "") :: (rowPrinted m.body.entries ++ [.own m.body.trailing])

section

variable (b : Text.LineBreak)

theorem printedText_cons (piece : Printed) (rest : List Printed) :
    printedText b (piece :: rest) = piece.text b ++ printedText b rest := by
  rw [← String.toList_inj]
  simp [printedText, String.toList_join]

theorem printedText_append (xs ys : List Printed) :
    printedText b (xs ++ ys) = printedText b xs ++ printedText b ys := by
  rw [← String.toList_inj]
  simp [printedText, String.toList_join]

@[simp] theorem printedText_nil : printedText b [] = "" := rfl

/-- The notes of an entry are printed one after another. -/
theorem printedText_notes (leading : String) (notes : List String) :
    printedText b (notes.map (Printed.note leading)) = renderNotes b leading notes := by
  rw [printedText, renderNotes, List.map_map]
  rfl

-- The recursion of printing: a declaration by its parts, and a row entry by entry.
mutual

theorem Decl.printedText_printed : ∀ d : Decl, printedText b d.printed = d.render b
  | .scope ⟨name, form, header, ⟨entries, trailing⟩, footer⟩ => by
    rw [Decl.printed, printedText_cons, printedText_append, printedText_rowPrinted entries,
      Decl.render, Block.render]
    simp [printedText_cons, Printed.text, String.append_assoc]
  | .type ⟨name, header, ⟨entries, trailing⟩, footer⟩ => by
    rw [Decl.printed, printedText_cons, printedText_append, printedText_rowPrinted entries,
      Decl.render, Block.render]
    simp [printedText_cons, Printed.text, String.append_assoc]
  | .method m => by simp [Decl.printed, Decl.render, printedText_cons, Printed.text]
  | .verbatim text => by simp [Decl.printed, Decl.render, printedText_cons, Printed.text]

theorem printedText_rowPrinted : ∀ es : List Entry,
    printedText b (rowPrinted es) = renderEntries b es
  | [] => rfl
  | ⟨leading, notes, decl⟩ :: rest => by
    rw [rowPrinted, printedText_cons, printedText_append, printedText_append, printedText_notes,
      Decl.printedText_printed decl, printedText_rowPrinted rest, renderEntries, Entry.render]
    simp [Printed.text, String.append_assoc]

end

end

/-- **The pieces make the printed module.** -/
theorem printedText_printed (m : SourceModule) : printedText m.lineBreak m.printed = m.render := by
  rw [SourceModule.printed, printedText_cons, printedText_append, printedText_rowPrinted,
    SourceModule.render, Block.render_eq]
  simp [printedText_cons, Printed.text]

/-- None of the pieces that notes become is the module's own. -/
theorem filter_isOwn_notes (leading : String) (notes : List String) :
    (notes.map (Printed.note leading)).filter Printed.isOwn = [] := by
  simp [List.filter_eq_nil_iff, Printed.isOwn]

mutual

theorem Decl.printed_withNotes_nil : ∀ d : Decl,
    (d.withNotes fun _ => []).printed = d.printed.filter Printed.isOwn
  | .scope ⟨name, form, header, ⟨entries, trailing⟩, footer⟩ => by
    rw [Decl.withNotes, Decl.printed, Decl.printed, List.filter_cons_of_pos rfl, List.filter_append,
      rowPrinted_withNotes_nil entries]
    rfl
  | .type ⟨name, header, ⟨entries, trailing⟩, footer⟩ => by
    rw [Decl.withNotes, Decl.printed, Decl.printed, List.filter_cons_of_pos rfl, List.filter_append,
      rowPrinted_withNotes_nil entries]
    rfl
  | .method m => rfl
  | .verbatim text => rfl

theorem rowPrinted_withNotes_nil : ∀ es : List Entry,
    rowPrinted (rowWithNotes (fun _ => []) es) = (rowPrinted es).filter Printed.isOwn
  | [] => rfl
  | ⟨leading, notes, decl⟩ :: rest => by
    rw [rowWithNotes, rowPrinted, rowPrinted, List.filter_cons_of_pos rfl, List.filter_append,
      List.filter_append, filter_isOwn_notes, Decl.printed_withNotes_nil decl,
      rowPrinted_withNotes_nil rest]
    rfl

end

/-- **Cutting the notes out** of a printed module is printing the module without notes. -/
theorem printed_withoutNotes (m : SourceModule) :
    m.withoutNotes.printed = m.printed.filter Printed.isOwn := by
  rw [SourceModule.withoutNotes, SourceModule.withNotes, SourceModule.printed, SourceModule.printed,
    rowPrinted_withNotes_nil, List.filter_cons_of_pos rfl, List.filter_append]
  rfl

section

variable {leading text : String}

mutual

theorem Decl.mem_printed_iff : ∀ d : Decl, Printed.note leading text ∈ d.printed
    ↔ ∃ e ∈ d.inside, e.leading = leading ∧ text ∈ e.annotations
  | .scope ⟨name, form, header, ⟨entries, trailing⟩, footer⟩ => by
    simp [Decl.printed, Decl.inside, mem_rowPrinted_iff entries]
  | .type ⟨name, header, ⟨entries, trailing⟩, footer⟩ => by
    simp [Decl.printed, Decl.inside, mem_rowPrinted_iff entries]
  | .method m => by simp [Decl.printed, Decl.inside]
  | .verbatim text => by simp [Decl.printed, Decl.inside]

theorem mem_rowPrinted_iff : ∀ es : List Entry, Printed.note leading text ∈ rowPrinted es
    ↔ ∃ e ∈ everyEntry es, e.leading = leading ∧ text ∈ e.annotations
  | [] => by simp [rowPrinted, everyEntry]
  | ⟨leading', notes, decl⟩ :: rest => by
    have hown : Printed.note leading text ∈ notes.map (Printed.note leading')
        ↔ leading' = leading ∧ text ∈ notes := by
      simp [and_comm]
    rw [rowPrinted, everyEntry, List.mem_cons, List.mem_append, List.mem_append, hown,
      Decl.mem_printed_iff decl, mem_rowPrinted_iff rest]
    simp [or_and_right, exists_or]

end

/-- **The other pieces are the notes** on the entries at every depth. -/
theorem mem_printed_iff {m : SourceModule} : Printed.note leading text ∈ m.printed
    ↔ ∃ e ∈ m.everyEntry, e.leading = leading ∧ text ∈ e.annotations := by
  simp [SourceModule.printed, SourceModule.everyEntry, mem_rowPrinted_iff]

end

/-! ## Line comments

The break behind a note is that of the text before its declaration, or the module's; either way the
line ends there. The indentation comes after it and belongs to the declaration. -/

/-- The characters that end a line of a language, and a line comment with it. A text is taken as it
stands: escapes for characters are not read. -/
def Language.lineEnds : Language → List Char
  | csharp => ['\n', '\r', '\u0085', '\u2028', '\u2029']
  | java => ['\n', '\r']

/-- No line ends in a text. -/
def Language.IsOneLine (l : Language) (s : String) : Prop :=
  ∀ c ∈ s.toList, c ∉ l.lineEnds

instance (l : Language) (s : String) : Decidable (l.IsOneLine s) :=
  List.decidableBAll (· ∉ l.lineEnds) s.toList

/-- A text is a line comment, the line break that ends it, and blanks on the next line. -/
structure IsLineComment (l : Language) (s : String) : Prop where
  slashes : "// ".toList <+: s.toList
  /-- The first line end of the text is the only one. -/
  ends : ∃ (b : Text.LineBreak) (blanks : List Char),
    s.toList.dropWhile (· ∉ l.lineEnds) = b.chars ++ blanks ∧ ∀ c ∈ blanks, c = ' ' ∨ c = '\t'

theorem of_mem_indentation {leading : String} {c : Char} (h : c ∈ (indentation leading).toList) :
    c = ' ' ∨ c = '\t' := by
  rw [indentation] at h
  split at h
  · rename_i hline
    rw [String.toList_ofList] at h
    simpa using List.all_eq_true.1 hline c h
  · simp at h

/-- What is printed for a note, part by part. -/
theorem toList_renderNote (b : Text.LineBreak) (leading text : String) :
    (renderNote b leading text).toList
      = ("// ".toList ++ text.toList)
        ++ ((noteBreak b leading).chars ++ (indentation leading).toList) := by
  simp only [renderNote, String.toList_append, Text.toList_text, List.append_assoc]

/-- What comes after something that ends a run is left when the run is dropped. -/
theorem mem_dropWhile_append {α : Type} {p : α → Bool} {xs ys : List α} {x y : α} (hx : x ∈ xs)
    (hp : p x = false) (hy : y ∈ ys) : y ∈ (xs ++ ys).dropWhile p := by
  have hne : xs.dropWhile p ≠ [] := fun hnil => by
    simp [List.dropWhile_eq_nil_iff.1 hnil x hx] at hp
  rw [List.dropWhile_append, if_neg (by simpa using hne)]
  exact List.mem_append_right _ hy

section

variable {l : Language} {tag text : String}

theorem isOneLine_append {s t : String} :
    l.IsOneLine (s ++ t) ↔ l.IsOneLine s ∧ l.IsOneLine t := by
  simp only [Language.IsOneLine, String.toList_append, List.forall_mem_append]

/-- No line ends in what a pass puts behind its tag. -/
theorem isOneLine_note (id : Nat) (p : Provenance) :
    l.IsOneLine (note tag id p) ↔ l.IsOneLine tag := by
  have hid : l.IsOneLine (toString id) := by
    rw [Nat.toString_eq_ofList_toDigits, Language.IsOneLine, String.toList_ofList]
    intro c hc hend
    have hends : l.lineEnds.all (!Char.isDigit ·) = true := by cases l <;> decide
    have hdigit := Nat.isDigit_of_mem_toDigits (by decide) (by decide) hc
    simpa [hdigit] using List.all_eq_true.1 hends c hend
  have hp : l.IsOneLine p.text := by
    cases l <;> cases p <;> decide
  have hmarks : l.IsOneLine " #" ∧ l.IsOneLine ": " := by
    cases l <;> decide
  simp only [note, isOneLine_append, hid, hp, hmarks, and_true]

/-- A note without a line end is printed as a line comment. -/
theorem isLineComment_renderNote (h : l.IsOneLine text) (b : Text.LineBreak) (leading : String) :
    IsLineComment l (renderNote b leading text) := by
  have hslashes : l.IsOneLine "// " := by cases l <;> decide
  have hline : ∀ c ∈ "// ".toList ++ text.toList, decide (c ∉ l.lineEnds) = true :=
    fun c hc => decide_eq_true (List.forall_mem_append.2 ⟨hslashes, h⟩ c hc)
  refine ⟨?_, noteBreak b leading, (indentation leading).toList, ?_, fun c => of_mem_indentation⟩
  · rw [toList_renderNote, List.append_assoc]
    exact List.prefix_append _ _
  · rw [toList_renderNote, List.dropWhile_append_of_pos hline]
    cases l <;> cases noteBreak b leading <;> rfl

/-- **A note of a pass is printed as a line comment** exactly if no line ends in the tag. -/
theorem isLineComment_note_iff {id : Nat} {p : Provenance} {b : Text.LineBreak}
    {leading : String} :
    IsLineComment l (renderNote b leading (note tag id p)) ↔ l.IsOneLine tag := by
  refine ⟨fun h c hc hend => ?_,
    fun h => isLineComment_renderNote ((isOneLine_note id p).2 h) b leading⟩
  -- The number sign behind the tag is then in no comment, and it is no blank.
  obtain ⟨b', blanks, hdrop, hblanks⟩ := h.ends
  have hnumber : '#' ∈ b'.chars ++ blanks := by
    rw [← hdrop, toList_renderNote, note]
    simp only [String.toList_append, List.append_assoc]
    rw [← List.append_assoc]
    refine mem_dropWhile_append (x := c) (List.mem_append_right _ hc) (by simpa using hend) ?_
    exact List.mem_append_left _ (by decide)
  rcases List.mem_append.1 hnumber with hbreak | hblank
  · cases b' <;> exact absurd hbreak (by decide)
  · exact absurd (hblanks _ hblank) (by decide)

end

/-! ## Notes of a pass -/

/-- **Notes are comments, as far as the tag allows.** Any text may be the tag in a file of settings.
Whatever it is, the merged module is printed as its own text with the notes between, and its own
text is the merged module without notes, which is the same for every tag. A note that was on an
input is printed as one line comment if no line ends in it, and a note of the pass exactly if no
line ends in the tag. -/
theorem printed_notes_of_merge (tag : String) (choices : Option Resolutions)
    (first second : SourceModule) :
    let merged := (merge tag choices first second).result
    (∃ file settings, Settings.codec.decode file = .ok settings
        ∧ ∀ l, (settings.mergeConfig l).annotationTag = tag)
      ∧ merged.render = printedText merged.lineBreak merged.printed
      ∧ merged.withoutNotes.render
        = printedText merged.lineBreak (merged.printed.filter Printed.isOwn)
      ∧ (∀ tag', (merge tag' choices first second).result.withoutNotes = merged.withoutNotes)
      ∧ ∀ leading text, .note leading text ∈ merged.printed →
        let printed := renderNote merged.lineBreak leading text
        (∃ e ∈ first.everyEntry ++ second.everyEntry, text ∈ e.annotations)
            ∧ (first.language.IsOneLine text → IsLineComment first.language printed)
          ∨ ∃ id p, text = note tag id p
            ∧ (IsLineComment first.language printed ↔ first.language.IsOneLine tag) := by
  intro merged
  let settings : Settings := ⟨⟨none, tag, false⟩, .default, .default⟩
  refine ⟨⟨_, settings, settings.decode_encodeText .pretty, fun _ => rfl⟩,
    (printedText_printed merged).symm, ?_,
    fun tag' => withoutNotes_merge tag' tag choices first second, fun leading text hmem => ?_⟩
  · rw [← printed_withoutNotes]
    exact (printedText_printed merged.withoutNotes).symm
  · obtain ⟨e, he, -, htext⟩ := mem_printed_iff.1 hmem
    rcases note_of_merge tag choices first second he htext with hinput | ⟨id, p, rfl, -⟩
    · exact .inl ⟨hinput, fun h => isLineComment_renderNote h _ leading⟩
    · exact .inr ⟨id, p, rfl, isLineComment_note_iff⟩

/-- A file of settings may hold a tag of two lines. The second line becomes a field of the merged
class. -/
theorem printed_notes_of_merge_field :
    let file := "\x7b\"merge\": \x7b\"annotation_tag\": \"merge\\nint x; //\"\x7d\x7d"
    let tag := "merge\nint x; //"
    let first := sampleClass "T" [sampleMethod "F" "1"]
    let merged := (merge tag none first first).result
    let text := note tag 1 .duplicateKeptFromSecond
    (Settings.codec.decode file).toOption.map (fun settings =>
        (settings.mergeConfig .csharp).annotationTag) = some tag
      ∧ .note "\n" text ∈ merged.printed
      ∧ ¬ IsLineComment .csharp (renderNote merged.lineBreak "\n" text)
      ∧ merged.render = "class T \x7b\n// merge\nint x; // #1: duplicate, kept from second input\n"
        ++ "void F() \x7b1\x7d\n\x7d\n" := by
  intro file tag first merged text
  refine ⟨by decide +kernel, by decide +kernel, fun h => ?_, by decide +kernel⟩
  exact absurd (isLineComment_note_iff.1 h) (by decide +kernel)

end ModuleMerge
