import ModuleMerge.Json.Record
import ModuleMerge.ParseTree

/-!
# Syntax trees as JSON

Trees are made by grammars outside this library and come as JSON. A node is an object, or an array
of its fields in order: its kind, where it starts and stops, its marks as letters, the name of its
part, and its children.

* `NodeMarks.ofLetters` and `NodeMarks.letters` are the marks of a node as letters.
* `ParseTree.codecWithin` is the form of trees of limited depth, and `ParseTree.ofJson` reads a
  tree of any depth.
-/

set_option autoImplicit false

namespace ModuleMerge

open Json

namespace NodeMarks

/-- The marks that letters stand for. -/
def ofLetters (cs : List Char) : NodeMarks where
  named := cs.contains 'n'
  extra := cs.contains 'x'
  error := cs.contains 'e'
  missing := cs.contains 'm'
  faulty := cs.contains 'h'

/-- The letter of a mark, if it is set. -/
def letter (isSet : Bool) (c : Char) : List Char :=
  if isSet then [c] else []

/-- The letters that stand for marks. -/
def letters (m : NodeMarks) : List Char :=
  letter m.named 'n' ++ letter m.extra 'x' ++ letter m.error 'e' ++ letter m.missing 'm'
    ++ letter m.faulty 'h'

/-- Marks, by their letters. -/
def codec : Codec NodeMarks :=
  .via .text (fun m => String.ofList m.letters) fun s => ofLetters s.toList

/-! ## Small facts -/

@[simp] theorem ofLetters_letters (m : NodeMarks) : ofLetters m.letters = m := by
  obtain ⟨named, extra, error, missing, faulty⟩ := m
  cases named <;> cases extra <;> cases error <;> cases missing <;> cases faulty <;> rfl

end NodeMarks

namespace ParseTree

/-- Nodes, with their children by a codec of nodes. -/
def codecOver (child : Codec ParseTree) : Codec ParseTree :=
  .record "ParseTree"
    (.cons (.required "kind" .text) <|
      .cons (.required "start" .natural32) <|
      .cons (.required "end" .natural32) <|
      .cons (.withDefault "marks" NodeMarks.codec (.ofLetters [])) <|
      .cons (.withDefault "field" Codec.text.nullable none) <|
      .cons (.withDefault "children" (.list child) []) .nil)
    (fun t => (t.kind, t.start, t.stop, t.marks, t.field, t.children, ()))
    (fun (kind, start, stop, marks, field, children, _) =>
      ⟨kind, start, stop, marks, field, children⟩)

/-- Trees of at most so many levels. -/
def codecWithin : Nat → Codec ParseTree
  | 0 => ⟨fun _ => .null, Reader.failHere .noValue⟩
  | levels + 1 =>
    codecOver ⟨fun t => (codecWithin levels).encode t, fun rest => (codecWithin levels).read rest⟩

/-- The tree that a text holds. Each level takes a character at least. -/
def ofJson (text : String) : Except ReadError ParseTree :=
  (codecWithin (text.length + 1)).decode text

end ParseTree

end ModuleMerge
