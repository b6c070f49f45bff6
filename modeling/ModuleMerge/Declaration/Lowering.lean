import ModuleMerge.Declaration.Basic
import ModuleMerge.ParseTree

/-!
# From syntax trees to declaration trees

A grammar's tree is cut down to its namespaces, types and methods. No byte is lost: the text
between two sibling declarations goes before the second, and the text before a closing brace goes
to the end of the block.

* `Grammar` names the kinds of node that count as a namespace, a type or a method.
* `lowerEntries` cuts a row of nodes into entries, behind a cursor that moves over the text.
* `SourceModule.ofTree` lowers a whole file, and `Source.read` refuses a file with bad nodes
  unless they are tolerated.
-/

set_option autoImplicit false

namespace ModuleMerge

/-! ## Grammars -/

/-- What a kind of node means to a declaration tree. -/
inductive NodeRole where
  | blockScope
  | fileScope
  | type
  | method
  | other
  deriving DecidableEq, Repr

/-- The kinds of node that a language's grammar gives to each role. -/
structure Grammar where
  blockScopes : List String
  fileScopes : List String
  types : List String
  methods : List String

namespace Grammar

/-- The kinds of a C# grammar. -/
def csharp : Grammar where
  blockScopes := ["namespace_declaration"]
  fileScopes := ["file_scoped_namespace_declaration"]
  types :=
    ["class_declaration", "struct_declaration", "interface_declaration", "record_declaration",
     "record_struct_declaration"]
  methods := ["method_declaration"]

/-- The kinds of a Java grammar. -/
def java : Grammar where
  blockScopes := []
  fileScopes := ["package_declaration"]
  types := ["class_declaration", "interface_declaration", "record_declaration"]
  methods := ["method_declaration"]

/-- The grammar of a language. -/
def ofLanguage : Language → Grammar
  | .csharp => csharp
  | .java => java

/-- The role of a kind of node. Inside a type only methods have one. -/
def role (g : Grammar) (inType : Bool) (kind : String) : NodeRole :=
  if inType then
    if kind ∈ g.methods then .method else .other
  else if kind ∈ g.blockScopes then .blockScope
  else if kind ∈ g.fileScopes then .fileScope
  else if kind ∈ g.types then .type
  else .other

end Grammar

/-! ## Lowering -/

/-- The part of a text between two byte offsets, as a string. -/
def cut (text : List Char) (start stop : Nat) : String :=
  String.ofList (Text.slice text start stop)

/-- The text of a node. -/
def ParseTree.source (t : ParseTree) (text : List Char) : String :=
  cut text t.start t.stop

/-- The offsets after the first opening brace and at the last closing brace that is not missing,
if the first does not come after the second. -/
def braces (children : List ParseTree) : Option (Nat × Nat) :=
  match children.find? (·.kind = "\x7b"),
      children.reverse.find? (fun c => c.kind = "\x7d" && !c.marks.missing) with
  | some left, some right => if left.stop ≤ right.start then some (left.stop, right.start) else none
  | _, _ => none

/-- A method declaration; nothing if the node has no name or no parameter list. -/
def lowerMethod (text : List Char) (t : ParseTree) : Option Method := do
  let name ← t.child? "name"
  let parameters ← t.child? "parameters"
  pure {
    name := name.source text
    parameters := parameters.source text
    body := ((t.child? "body").map (·.source text)).getD ""
    text := t.source text }

/-- The name node of a namespace in file form: the node in that part, else the first identifier. -/
def fileScopeName? (t : ParseTree) : Option ParseTree :=
  (t.child? "name").or <|
    t.children.find? fun c =>
      c.marks.named && (c.kind = "scoped_identifier" || c.kind = "identifier")

/-- The offset after the header of a namespace in file form: its first semicolon, else its end. -/
def fileHeaderStop (t : ParseTree) : Nat :=
  ((t.children.find? (·.kind = ";")).map (·.stop)).getD t.stop

mutual

/-- Cuts a row of nodes into entries. The cursor is the end of the last node taken; nodes that
are unnamed, extra or start before it are passed over. Also gives the cursor's last place. -/
def lowerEntries (text : List Char) (g : Grammar) (inType : Bool) :
    Nat → List ParseTree → List Entry × Nat
  | cursor, [] => ([], cursor)
  | cursor, c :: cs =>
    if !c.marks.named || c.marks.extra || decide (c.start < cursor) then
      lowerEntries text g inType cursor cs
    else
      let rest := lowerEntries text g inType c.stop cs
      (⟨cut text cursor c.start, [], lowerDecl text g inType c⟩ :: rest.1, rest.2)

/-- The declaration that a node stands for; its text as it is, if the node has no role or lacks
a part that the role needs. -/
def lowerDecl (text : List Char) (g : Grammar) (inType : Bool) : ParseTree → Decl
  | ⟨kind, start, stop, marks, field, children⟩ =>
    let t : ParseTree := ⟨kind, start, stop, marks, field, children⟩
    match g.role inType kind with
    | .other => .verbatim (cut text start stop)
    | .method =>
      match lowerMethod text t with
      | some m => .method m
      | none => .verbatim (cut text start stop)
    | .blockScope =>
      match t.child? "name", lowerBody text g false children with
      | some name, some (left, body, right) =>
        .scope ⟨name.source text, .block, cut text start left, body, cut text right stop⟩
      | _, _ => .verbatim (cut text start stop)
    | .type =>
      match t.child? "name", lowerBody text g true children with
      | some name, some (left, body, right) =>
        .type ⟨name.source text, cut text start left, body, cut text right stop⟩
      | _, _ => .verbatim (cut text start stop)
    | .fileScope =>
      match fileScopeName? t with
      | some name =>
        let left := fileHeaderStop t
        let inner := lowerEntries text g false left children
        .scope ⟨name.source text, .file, cut text start left,
          ⟨inner.1, cut text inner.2 (max stop inner.2)⟩, ""⟩
      | none => .verbatim (cut text start stop)

/-- The braced body among the children of a node, with the offsets of its braces. -/
def lowerBody (text : List Char) (g : Grammar) (inType : Bool) :
    List ParseTree → Option (Nat × Block × Nat)
  | [] => none
  | ⟨_, _, _, _, field, children⟩ :: rest =>
    if field = some "body" then
      match braces children with
      | some (left, right) =>
        let inner := lowerEntries text g inType left children
        some (left, ⟨inner.1, cut text inner.2 (max right inner.2)⟩, right)
      | none => none
    else
      lowerBody text g inType rest

end

/-! ## Whole files -/

/-- The byte order mark. -/
def byteOrderMark : Char := '\uFEFF'

/-- A source file as it comes from disk, with the syntax tree of its text. The tree's offsets
start after one leading byte order mark. -/
structure Source where
  text : String
  tree : ParseTree

namespace Source

/-- Whether the file starts with a byte order mark. -/
def bom (s : Source) : Bool :=
  s.text.toList.head? = some byteOrderMark

/-- The text after one leading byte order mark. -/
def content (s : Source) : List Char :=
  if s.bom then s.text.toList.tail else s.text.toList

end Source

/-- The module that a syntax tree makes of a text. -/
def SourceModule.ofTree (language : Language) (bom : Bool) (text : List Char) (tree : ParseTree) :
    SourceModule :=
  let inner := lowerEntries text (Grammar.ofLanguage language) false 0 tree.children
  { language, bom
    crlf := Text.hasCrlf text
    body := ⟨inner.1, cut text inner.2 (max (Text.byteLength text) inner.2)⟩ }

/-- The module of a source file. A file with bad nodes is refused unless they are tolerated. -/
def Source.read (language : Language) (tolerant : Bool) (s : Source) :
    Except SyntaxFault SourceModule :=
  if s.tree.marks.faulty && !tolerant then
    .error (SyntaxFault.ofNode s.content (s.tree.firstBad?.getD s.tree))
  else
    .ok (SourceModule.ofTree language s.bom s.content s.tree)

end ModuleMerge
