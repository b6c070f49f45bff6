import ModuleMerge.Declaration.Basic

/-!
# The index of a module

The types of a module by qualified name, and the methods of a type by signature, both in source
order. A name or a signature that occurs more than once means its first occurrence.

* `typesUnder` lists the types of a row of entries under a namespace path.
* `Index.ofModule` is the index of a module, with `Index.get?` and `Index.contains`.
* `TypeDecl.members` lists the methods of a type with their places, and `TypeDecl.member?` finds
  one by its signature.
-/

set_option autoImplicit false

namespace ModuleMerge

/-! ## Types -/

/-- A type where it stands in a module. -/
structure IndexedType where
  /-- The path of the namespaces around the type. -/
  path : String
  /-- The text before the type. -/
  leading : String
  /-- The notes on the type. -/
  annotations : List String
  type : TypeDecl

namespace IndexedType

/-- The qualified name of the type. -/
def qualified (t : IndexedType) : String :=
  qualify t.path t.type.name

/-- The entry that holds the type. -/
def entry (t : IndexedType) : Entry :=
  ⟨t.leading, t.annotations, .type t.type⟩

end IndexedType

/-- The namespace path after an entry: a namespace in file form extends it. -/
def Entry.pathAfter (path : String) : Entry → String
  | ⟨_, _, .scope ⟨name, form, _, _, _⟩⟩ => form.pathAfter path (qualify path name)
  | _ => path

mutual

/-- The types of one entry under a namespace path: the entry itself, or what its namespace holds.
Types inside types are not listed. -/
def Entry.types (path : String) : Entry → List IndexedType
  | ⟨_, _, .scope ⟨name, _, _, ⟨entries, _⟩, _⟩⟩ => typesUnder (qualify path name) entries
  | ⟨leading, annotations, .type type⟩ => [⟨path, leading, annotations, type⟩]
  | ⟨_, _, .method _⟩ => []
  | ⟨_, _, .verbatim _⟩ => []

/-- The types of a row of entries in source order, `path` being the namespace path at the first
of them. -/
def typesUnder (path : String) : List Entry → List IndexedType
  | [] => []
  | e :: rest => e.types path ++ typesUnder (e.pathAfter path) rest

end

/-- The types of a module in source order. -/
structure Index where
  types : List IndexedType

namespace Index

/-- The index of a module. -/
def ofModule (m : SourceModule) : Index :=
  ⟨typesUnder "" m.body.entries⟩

/-- The first type with a qualified name. -/
def get? (index : Index) (qualified : String) : Option IndexedType :=
  index.types.find? (·.qualified = qualified)

/-- Whether a type with a qualified name is in the index. -/
def contains (index : Index) (qualified : String) : Bool :=
  index.types.any (·.qualified = qualified)

/-- The number of types, repeated names included. -/
def size (index : Index) : Nat :=
  index.types.length

/-- A look-up finds something exactly where the index contains the name. -/
theorem contains_eq_isSome_get? (index : Index) (qualified : String) :
    index.contains qualified = (index.get? qualified).isSome := by
  simp only [contains, get?]
  induction index.types with
  | nil => rfl
  | cons t ts ih =>
    rw [List.any_cons, List.find?_cons]
    cases h : decide (t.qualified = qualified) <;> simp [ih]

end Index

/-! ## Members -/

/-- A method where it stands in the body of a type. -/
structure Member where
  /-- How many entries of the body, of any kind, come before the method. -/
  position : Nat
  leading : String
  annotations : List String
  method : Method

namespace Member

/-- What the method is paired by. -/
def signature (m : Member) : String :=
  m.method.signature

/-- The entry that holds the method. -/
def entry (m : Member) : Entry :=
  ⟨m.leading, m.annotations, .method m.method⟩

end Member

/-- The methods of a row of entries in order, the first entry standing at `position`. -/
def membersFrom (position : Nat) : List Entry → List Member
  | [] => []
  | ⟨leading, annotations, .method method⟩ :: rest =>
    ⟨position, leading, annotations, method⟩ :: membersFrom (position + 1) rest
  | _ :: rest => membersFrom (position + 1) rest

namespace TypeDecl

/-- The methods that stand directly in the body of a type, in order. -/
def members (t : TypeDecl) : List Member :=
  membersFrom 0 t.body.entries

/-- The first method of a type with a signature. -/
def member? (t : TypeDecl) (signature : String) : Option Member :=
  t.members.find? (·.signature = signature)

end TypeDecl

end ModuleMerge
