import ModuleMerge.Text.Parts

/-!
# Paths

A path is a text whose names stand between slashes. Its parts are found by looking at the text
alone, whatever files there are.

* `Path.steps` are the names that a path leads along.
* `Path.fileName?`, `Path.extension?` and `Path.parent?` take a path apart; empty names and names
  that are one dot do not count there.
* `Path.join` and `Path.withFileName` put paths together.
-/

set_option autoImplicit false

namespace ModuleMerge

/-- A path, as it is written. -/
structure Path where
  text : String
  deriving DecidableEq, Repr

namespace Path

/-! ## Names -/

/-- The names between the slashes of a text. -/
def segments (cs : List Char) : List (List Char) :=
  Text.parts '/' cs

/-- The text with these names between its slashes. -/
def joinSegments (names : List (List Char)) : List Char :=
  Text.joinParts '/' names

/-- Whether the path starts at the root. -/
def isAbsolute (p : Path) : Bool :=
  p.text.toList.head? = some '/'

/-- Whether the path can only be that of a directory. -/
def endsInSlash (p : Path) : Bool :=
  p.text.toList.getLast? = some '/'

/-- The names that the path leads along, those that are one or two dots included. -/
def steps (p : Path) : List String :=
  ((segments p.text.toList).filter (· ≠ [])).map String.ofList

/-! ## Parts -/

/-- Whether a name neither leads anywhere nor counts as a part of the path. -/
def isIdle (name : List Char) : Bool :=
  name = [] || name = ['.']

/-- What stands before the names: the slash of an absolute path, or the dot of one that starts in
the current directory. -/
def head (p : Path) : List Char :=
  match p.text.toList with
  | '/' :: _ => ['/']
  | '.' :: '/' :: _ | ['.'] => ['.']
  | _ => []

/-- The names after the head, the last one first, from the last that counts on. -/
def namesFromEnd (p : Path) : List (List Char) :=
  (segments (p.text.toList.drop p.head.length)).reverse.dropWhile isIdle

/-- The last name, if it is that of a file or directory. -/
def fileName? (p : Path) : Option String :=
  match p.namesFromEnd.head? with
  | none => none
  | some name => if name = ['.', '.'] then none else some (String.ofList name)

/-- What follows the last dot of the file name. A dot that the name starts with does not count. -/
def extension? (p : Path) : Option String := do
  let backwards := (← p.fileName?).toList.reverse
  match backwards.dropWhile (· ≠ '.') with
  | _ :: _ :: _ => some (String.ofList (backwards.takeWhile (· ≠ '.')).reverse)
  | _ => none

/-- The path without its last name. A path without names has none, but for one that is a dot. -/
def parent? (p : Path) : Option Path :=
  match p.namesFromEnd with
  | [] => if p.head = ['.'] then some ⟨""⟩ else none
  | _ :: names =>
    some ⟨String.ofList (p.head ++ joinSegments (names.dropWhile isIdle).reverse)⟩

/-! ## Putting paths together -/

/-- The second path, taken from the directory that the first one names. -/
def join (p q : Path) : Path :=
  if q.isAbsolute || p.text = "" then q
  else if p.endsInSlash then ⟨p.text ++ q.text⟩
  else ⟨p.text ++ "/" ++ q.text⟩

/-- The path with another file name in place of its own, or behind it if it has none. -/
def withFileName (p : Path) (name : String) : Path :=
  (if p.fileName?.isSome then p.parent?.getD p else p).join ⟨name⟩

end Path

end ModuleMerge
