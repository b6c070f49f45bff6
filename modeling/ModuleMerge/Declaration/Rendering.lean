import ModuleMerge.Declaration.Basic

/-!
# Writing declaration trees

A tree is written by putting the texts of its nodes one after another. The notes on an entry are
the only text added: each becomes a line comment of its own before the declaration, as far
indented as the declaration.

* `indentation` is the part of an entry's leading text that indents it.
* `SourceModule.render` is the source text of a module.
-/

set_option autoImplicit false

namespace ModuleMerge

/-- The last line of a leading text, if it holds nothing but spaces and tabs. -/
def indentation (leading : String) : String :=
  let line := Text.lastLine leading.toList
  if line.all fun c => c = ' ' || c = '\t' then String.ofList line else ""

/-- The line break after a note: the leading text's own, or the module's if it has none. -/
def noteBreak (moduleBreak : Text.LineBreak) (leading : String) : Text.LineBreak :=
  if '\n' ∈ leading.toList then Text.LineBreak.ofText leading else moduleBreak

/-- One note as a line comment, followed by the indentation of what it stands above. -/
def renderNote (moduleBreak : Text.LineBreak) (leading note : String) : String :=
  "// " ++ note ++ (noteBreak moduleBreak leading).text ++ indentation leading

/-- The notes of an entry, one line each. -/
def renderNotes (moduleBreak : Text.LineBreak) (leading : String) (notes : List String) : String :=
  String.join (notes.map (renderNote moduleBreak leading))

mutual

/-- The source text of a declaration. -/
def Decl.render (moduleBreak : Text.LineBreak) : Decl → String
  | .scope ⟨_, _, header, body, footer⟩ => header ++ Block.render moduleBreak body ++ footer
  | .type ⟨_, header, body, footer⟩ => header ++ Block.render moduleBreak body ++ footer
  | .method m => m.text
  | .verbatim text => text

/-- The source text of an entry. -/
def Entry.render (moduleBreak : Text.LineBreak) : Entry → String
  | ⟨leading, annotations, decl⟩ =>
    leading ++ renderNotes moduleBreak leading annotations ++ Decl.render moduleBreak decl

/-- The source text of a row of entries. -/
def renderEntries (moduleBreak : Text.LineBreak) : List Entry → String
  | [] => ""
  | e :: es => Entry.render moduleBreak e ++ renderEntries moduleBreak es

/-- The source text of a block. -/
def Block.render (moduleBreak : Text.LineBreak) : Block → String
  | ⟨entries, trailing⟩ => renderEntries moduleBreak entries ++ trailing

end

/-- The source text of a module. -/
def SourceModule.render (m : SourceModule) : String :=
  (if m.bom then "\uFEFF" else "") ++ m.body.render m.lineBreak

/-! ## Small facts -/

theorem Block.render_eq (moduleBreak : Text.LineBreak) (b : Block) :
    b.render moduleBreak = renderEntries moduleBreak b.entries ++ b.trailing := by
  cases b; rfl

theorem Entry.render_eq (moduleBreak : Text.LineBreak) (e : Entry) :
    e.render moduleBreak
      = e.leading ++ renderNotes moduleBreak e.leading e.annotations
          ++ e.decl.render moduleBreak := by
  cases e; rfl

theorem renderEntries_append (moduleBreak : Text.LineBreak) (xs ys : List Entry) :
    renderEntries moduleBreak (xs ++ ys)
      = renderEntries moduleBreak xs ++ renderEntries moduleBreak ys := by
  induction xs with
  | nil => simp [renderEntries]
  | cons e es ih => simp [renderEntries, ih, String.append_assoc]

end ModuleMerge
