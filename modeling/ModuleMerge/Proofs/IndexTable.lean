import Mathlib.Data.List.FinRange
import ModuleMerge.Proofs.Places

/-!
# An index that is filled as it goes

A look-up in an index goes along the list of types until it meets the name. It need not: while the
list is filled, a table can keep where the first type of each name went. Such a table is written
before the list is, so the number put down is right only because it is the number of items so far,
and it stays right only because it is never put down again for the same name.

* `FirstTable` is a list with such a table, and `FirstTable.push` adds one item to both.
* `FirstTable.Holds` says that the table is right, `Holds.push` that it stays so, and `Holds.get?`
  and `Holds.contains` that the table then answers as the list does.
* `SourceModule.typeTable` and `TypeDecl.memberTable` fill one each in a single walk, and
  `holds_typeTable` and `holds_memberTable` say that they hold what the index lists.
-/

set_option autoImplicit false

namespace ModuleMerge

/-- Items in the order in which they came, found by key. -/
structure FirstTable (α : Type) where
  items : Array α
  /-- How many items were there before the first one with a key. -/
  places : Std.HashMap String Nat

namespace FirstTable

variable {α : Type}

/-- No items. -/
def empty : FirstTable α := ⟨#[], ∅⟩

/-- One item more; the first item of a key stays the one that is found. -/
def push (table : FirstTable α) (key : String) (item : α) : FirstTable α :=
  ⟨table.items.push item, table.places.insertIfNew key table.items.size⟩

/-- The first item with a key. -/
def get? (table : FirstTable α) (key : String) : Option α :=
  table.places[key]?.bind fun place => table.items[place]?

/-- Whether there is an item with a key. -/
def contains (table : FirstTable α) (key : String) : Bool :=
  table.places.contains key

/-- A table has the items of a list, and for every key the place of the first item with it. -/
structure Holds (table : FirstTable α) (key : α → String) (xs : List α) : Prop where
  items : table.items = xs.toArray
  places : ∀ name, table.places[name]? = xs.findIdx? (key · = name)

variable {table : FirstTable α} {key : α → String} {xs : List α}

theorem holds_empty (key : α → String) : (empty : FirstTable α).Holds key [] :=
  ⟨rfl, fun _ => Std.HashMap.getElem?_empty⟩

/-- One item more, and the table is still right. -/
theorem Holds.push (h : table.Holds key xs) (item : α) :
    (table.push (key item) item).Holds key (xs ++ [item]) := by
  refine ⟨by simp [FirstTable.push, h.items], fun name => ?_⟩
  have hsize : table.items.size = xs.length := by rw [h.items, List.size_toArray]
  have hnew : key item ∈ table.places ↔ (xs.findIdx? (key · = key item)).isSome := by
    rw [← h.places, ← Std.HashMap.contains_eq_isSome_getElem?, Std.HashMap.contains_iff_mem]
  rw [FirstTable.push, Std.HashMap.getElem?_insertIfNew, List.findIdx?_append, h.places, hsize]
  by_cases hname : key item = name
  · subst hname
    cases hfirst : xs.findIdx? (key · = key item) with
    | none => simp [hnew, hfirst]
    | some place => simp [hnew, hfirst]
  · simp [hname]

/-- A look-up by table finds what a look-up along the list finds. -/
theorem Holds.get? (h : table.Holds key xs) (name : String) :
    table.get? name = xs.find? (key · = name) := by
  rw [FirstTable.get?, h.places, h.items]
  cases hplace : xs.findIdx? (key · = name) with
  | none =>
    rw [List.findIdx?_eq_none_iff] at hplace
    exact (List.find?_eq_none.2 fun x hx => by simpa using hplace x hx).symm
  | some place =>
    rw [Option.bind_some, List.getElem?_toArray, List.find?_eq_bind_findIdx?_getElem?, hplace,
      Option.bind_some]

theorem Holds.contains (h : table.Holds key xs) (name : String) :
    table.contains name = xs.any (key · = name) := by
  rw [FirstTable.contains, Std.HashMap.contains_eq_isSome_getElem?, h.places, List.findIdx?_isSome]

end FirstTable

open FirstTable (holds_empty)

/-! ## The types of a module -/

mutual

/-- Puts the types of one entry into a table. -/
def Entry.fill (path : String) (table : FirstTable IndexedType) :
    Entry → FirstTable IndexedType
  | ⟨_, _, .scope ⟨name, _, _, ⟨entries, _⟩, _⟩⟩ => fillUnder (qualify path name) table entries
  | ⟨leading, notes, .type t⟩ => table.push (qualify path t.name) ⟨path, leading, notes, t⟩
  | ⟨_, _, .method _⟩ => table
  | ⟨_, _, .verbatim _⟩ => table

/-- Puts the types of a row of entries into a table, `path` being the namespace path at the first
of them. -/
def fillUnder (path : String) (table : FirstTable IndexedType) :
    List Entry → FirstTable IndexedType
  | [] => table
  | e :: rest => fillUnder (e.pathAfter path) (e.fill path table) rest

end

/-- The types of a module by qualified name. -/
def SourceModule.typeTable (m : SourceModule) : FirstTable IndexedType :=
  fillUnder "" .empty m.body.entries

/-- A walk along a row adds the types of the row to what is there. -/
theorem holds_fillUnder (path : String) {table : FirstTable IndexedType} {xs : List IndexedType}
    (h : table.Holds IndexedType.qualified xs) (es : List Entry) :
    (fillUnder path table es).Holds IndexedType.qualified (xs ++ typesUnder path es) := by
  induction es using row_induction generalizing path table xs with
  | nil => simpa [fillUnder, typesUnder] using h
  | scope _ _ name form _ entries _ _ rest ihBody ihRest =>
    have hbody := ihBody (qualify path name) h
    have hrest := ihRest (form.pathAfter path (qualify path name)) hbody
    rwa [List.append_assoc] at hrest
  | type leading notes t rest ih =>
    have hrest := ih path (h.push ⟨path, leading, notes, t⟩)
    rwa [List.append_assoc] at hrest
  | method _ _ m rest ih => exact ih path h
  | verbatim _ _ text rest ih => exact ih path h

theorem holds_typeTable (m : SourceModule) :
    m.typeTable.Holds IndexedType.qualified (Index.ofModule m).types :=
  holds_fillUnder "" (holds_empty _) m.body.entries

/-! ## The methods of a type -/

/-- Puts the methods of a row into a table, the first entry standing at `position`. -/
def fillMembers (position : Nat) (table : FirstTable Member) : List Entry → FirstTable Member
  | [] => table
  | ⟨leading, notes, .method m⟩ :: rest =>
    fillMembers (position + 1) (table.push m.signature ⟨position, leading, notes, m⟩) rest
  | _ :: rest => fillMembers (position + 1) table rest

/-- The methods of a type by signature. -/
def TypeDecl.memberTable (t : TypeDecl) : FirstTable Member :=
  fillMembers 0 .empty t.body.entries

theorem holds_fillMembers (position : Nat) {table : FirstTable Member} {xs : List Member}
    (h : table.Holds Member.signature xs) (es : List Entry) :
    (fillMembers position table es).Holds Member.signature (xs ++ membersFrom position es) := by
  induction es generalizing position table xs with
  | nil => simpa [fillMembers, membersFrom] using h
  | cons e rest ih =>
    obtain ⟨leading, notes, decl⟩ := e
    cases decl with
    | method m =>
      have hrest := ih (position + 1) (h.push ⟨position, leading, notes, m⟩)
      rwa [List.append_assoc] at hrest
    | scope _ | type _ | verbatim _ => exact ih (position + 1) h

theorem holds_memberTable (t : TypeDecl) : t.memberTable.Holds Member.signature t.members :=
  holds_fillMembers 0 (holds_empty _) t.body.entries

end ModuleMerge
