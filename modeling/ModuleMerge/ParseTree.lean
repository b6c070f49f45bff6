import ModuleMerge.Text.Bytes

/-!
# Concrete syntax trees

The tree that a grammar makes of a source text, as the rest of the library gets it.

* `ParseTree` is one node with its kind, its span in bytes, its marks and its children.
* `ParseTree.firstBad?` finds the first erroneous or missing node of a tree.
* `SyntaxFault` says where such a node stands and which kind of node is missing there.
-/

set_option autoImplicit false

namespace ModuleMerge

/-- What a grammar notes about a node besides its kind. -/
structure NodeMarks where
  /-- The node stands for a rule of the grammar, not for a punctuation mark or keyword. -/
  named : Bool
  /-- The node may stand anywhere, as comments do. -/
  extra : Bool
  /-- The node holds text that fits no rule. -/
  error : Bool
  /-- The node is one that the grammar required and the text lacks. -/
  missing : Bool
  /-- The node or one below it is erroneous or missing. -/
  faulty : Bool
  deriving DecidableEq, Repr

/-- A node of a concrete syntax tree. Its span counts bytes of the text. -/
structure ParseTree where
  kind : String
  start : Nat
  stop : Nat
  marks : NodeMarks
  /-- The name of the node's part in its parent's rule, if it has one. -/
  field : Option String
  children : List ParseTree

namespace ParseTree

/-- The first child that plays a named part. -/
def child? (t : ParseTree) (field : String) : Option ParseTree :=
  t.children.find? fun c => c.field = some field

/-- Whether a node itself is erroneous or missing. -/
def isBad (t : ParseTree) : Bool :=
  t.marks.error || t.marks.missing

mutual

/-- The first bad node of a tree, a node before its children, looking only below nodes that are
marked as faulty or missing. -/
def firstBad? : ParseTree → Option ParseTree
  | ⟨kind, start, stop, marks, field, children⟩ =>
    if marks.error || marks.missing then some ⟨kind, start, stop, marks, field, children⟩
    else firstBadAmong? children

/-- The first bad node below a row of siblings. -/
def firstBadAmong? : List ParseTree → Option ParseTree
  | [] => none
  | c :: cs =>
    if c.marks.faulty || c.marks.missing then (firstBad? c).or (firstBadAmong? cs)
    else firstBadAmong? cs

end

end ParseTree

/-! ## Faults of a text -/

/-- A text that the grammar could not read: where, and the kind of a missing node. -/
structure SyntaxFault where
  position : Text.Position
  /-- The kind of the node that is missing; nothing if text stands where none fits. -/
  missing : Option String
  deriving DecidableEq, Repr

namespace SyntaxFault

/-- The fault that a bad node of a text's tree stands for. -/
def ofNode (text : List Char) (t : ParseTree) : SyntaxFault :=
  ⟨Text.Position.ofOffset text t.start, if t.marks.missing then some t.kind else none⟩

/-- What is wrong, in words. -/
def detail (fault : SyntaxFault) : String :=
  match fault.missing with
  | some kind => "missing `" ++ kind ++ "`"
  | none => "unexpected syntax"

end SyntaxFault

end ModuleMerge
