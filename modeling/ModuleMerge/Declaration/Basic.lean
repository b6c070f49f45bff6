import ModuleMerge.Language
import ModuleMerge.Text.Lines

/-!
# Declaration trees

A source module is a tree of namespaces, types and methods; all other source text in it is kept
as it stands. Every node holds the text that it was made of, so that writing an untouched tree
gives its source back.

* `Decl`, `Entry` and `Block` are a declaration, a declaration with the text before it, and a run
  of such entries with the text after the last.
* `SourceModule` is a whole source file.
* `Method.signature` is what methods are paired by, and `Method.core` what their bodies are
  compared by.
* `qualify` joins a namespace path and a name.
-/

set_option autoImplicit false

namespace ModuleMerge

/-- A method that stands directly in the body of a type. -/
structure Method where
  name : String
  /-- The parameter list with its parentheses. -/
  parameters : String
  /-- The body, between braces or after an arrow; empty for a method without one. -/
  body : String
  /-- The whole declaration. -/
  text : String
  deriving DecidableEq, Repr

/-- How far a namespace reaches. -/
inductive ScopeForm where
  /-- Over its own body. -/
  | block
  /-- Over the rest of the block it stands in. -/
  | file
  deriving DecidableEq, Repr

mutual

/-- A declaration. -/
inductive Decl where
  | scope (scope : Scope)
  | type (type : TypeDecl)
  | method (method : Method)
  | verbatim (text : String)

/-- A namespace: its header runs through the opening brace or the semicolon, its footer starts at
the closing brace. -/
structure Scope where
  name : String
  form : ScopeForm
  header : String
  body : Block
  footer : String

/-- A type: its header runs through the opening brace, its footer starts at the closing brace. -/
structure TypeDecl where
  name : String
  header : String
  body : Block
  footer : String

/-- A declaration in its place. -/
structure Entry where
  /-- The blanks and comments since the declaration before. -/
  leading : String
  /-- Notes on where the declaration comes from, written above it. -/
  annotations : List String
  decl : Decl

/-- A run of declarations and the text between the last of them and the end of the run. -/
structure Block where
  entries : List Entry
  trailing : String

end

/-- A source file. -/
structure SourceModule where
  language : Language
  /-- The file starts with a byte order mark. -/
  bom : Bool
  /-- The file has a line that ends in a carriage return and a line feed. -/
  crlf : Bool
  body : Block

/-- The line break a module is written with where its own text has none. -/
def SourceModule.lineBreak (m : SourceModule) : Text.LineBreak :=
  if m.crlf then .crlf else .lf

/-- An entry with one more note. -/
def Entry.annotated (e : Entry) (note : String) : Entry :=
  { e with annotations := e.annotations ++ [note] }

/-! ## Methods -/

namespace Method

/-- The name with the parameter list: what methods of a type are paired by. -/
def signature (m : Method) : String :=
  m.name ++ m.parameters

/-- The body without the blanks around it. -/
def core (m : Method) : String :=
  Text.trimmed m.body

/-- Two methods have the same body if only blanks around it differ. -/
def sameBody (m n : Method) : Bool :=
  m.core == n.core

end Method

/-! ## Qualified names -/

/-- A name under a namespace path; the empty path adds nothing. -/
def qualify (path name : String) : String :=
  if path = "" then name else path ++ "." ++ name

/-- The path that holds after a namespace in the block it stands in: a namespace in file form
reaches over the rest of the block. -/
def ScopeForm.pathAfter (form : ScopeForm) (path inner : String) : String :=
  match form with
  | block => path
  | file => inner

@[simp] theorem qualify_empty (name : String) : qualify "" name = name := rfl

end ModuleMerge
