import ModuleMerge.Proofs.Table

/-!
# Places in a module

The merge changes a module from within: a type is rebuilt where it stands, new types go to the
ends of blocks. To say that something still stands where it stood, a type is listed here with its
place, the positions that lead to it from the top of the module.

A place is a list of positions and not a path of names, for names need not tell types apart: a type
may be declared in parts, and a namespace opened several times. Positions are counted along a row of
all its entries, text that was not understood included, so they stay the same when members of a type
come and go, and new entries at the end of a row move nothing that stands before them.

The list of types with places is made by recursion, as the index is. To be sure that it is the right
list, there is a second description of where a type stands, by what comes before it in its row
(`Stands`), and the two are shown to agree (`mem_placedTypes_iff`). The places are in the order of
the source text as lists are ordered, so a look-up that stops at the first hit finds what is first
in the text. The same is done for the methods of one type, where a position alone is enough.

* `row_induction` is the induction that every proof about rows of entries uses: it goes into the
  body of a namespace and along the row.
* `pathAfterRow` is the namespace path that holds at the end of a row.
* `placedUnder` lists the types of a row with their places; without the places it is the index
  (`map_snd_placedUnder`).
* `inOrder_placedUnder` says that this list follows the source text, and `firstOf?_eq_some_iff` that
  a name means what nothing of the name stands before.
* `SourceModule.typeAt?` is the type at a place, and `keyed_placedUnder` says that there is one.
* `TypeDecl.member?_eq_some_iff` and `TypeDecl.member?_of_entries` say which method of a body its
  signature means.
* `closingsUnder` lists the ends of block namespaces, with the path that a type put there gets.
-/

set_option autoImplicit false

namespace ModuleMerge

/-- Induction on a row of entries: a namespace has a row of its own for a body, and everything
else is a leaf. -/
@[elab_as_elim]
theorem row_induction {motive : List Entry → Prop} (nil : motive [])
    (scope : ∀ leading notes name form header entries trailing footer rest,
      motive entries → motive rest →
        motive (⟨leading, notes, .scope ⟨name, form, header, ⟨entries, trailing⟩, footer⟩⟩ :: rest))
    (type : ∀ leading notes t rest, motive rest → motive (⟨leading, notes, .type t⟩ :: rest))
    (method : ∀ leading notes m rest, motive rest → motive (⟨leading, notes, .method m⟩ :: rest))
    (verbatim : ∀ leading notes text rest, motive rest →
      motive (⟨leading, notes, .verbatim text⟩ :: rest)) :
    ∀ es, motive es
  | [] => nil
  | ⟨leading, notes, .scope ⟨name, form, header, ⟨entries, trailing⟩, footer⟩⟩ :: rest =>
    scope leading notes name form header entries trailing footer rest
      (row_induction nil scope type method verbatim entries)
      (row_induction nil scope type method verbatim rest)
  | ⟨leading, notes, .type t⟩ :: rest =>
    type leading notes t rest (row_induction nil scope type method verbatim rest)
  | ⟨leading, notes, .method m⟩ :: rest =>
    method leading notes m rest (row_induction nil scope type method verbatim rest)
  | ⟨leading, notes, .verbatim text⟩ :: rest =>
    verbatim leading notes text rest (row_induction nil scope type method verbatim rest)

/-! ## Paths along a row

A namespace for the whole file has its effect on the entries behind it, so the path that holds at an
entry depends on all entries before it. -/

theorem length_qualify (path name : String) :
    (qualify path name).length
      = if path = "" then name.length else path.length + 1 + name.length := by
  rw [qualify]
  split
  · rfl
  · rw [String.length_append, String.length_append]
    rfl

/-- The namespace path after a row of entries. -/
def pathAfterRow (path : String) : List Entry → String
  | [] => path
  | e :: rest => pathAfterRow (e.pathAfter path) rest

theorem pathAfterRow_append (path : String) (xs ys : List Entry) :
    pathAfterRow path (xs ++ ys) = pathAfterRow (pathAfterRow path xs) ys := by
  induction xs generalizing path with
  | nil => rfl
  | cons e rest ih => exact ih (e.pathAfter path)

/-- Entries that are types, all of them, leave the path as it is. -/
theorem pathAfterRow_of_types {path : String} {run : List Entry}
    (h : ∀ e ∈ run, ∃ t, e.decl = .type t) : pathAfterRow path run = path := by
  induction run with
  | nil => rfl
  | cons e rest ih =>
    obtain ⟨leading, notes, decl⟩ := e
    obtain ⟨t, rfl⟩ := h _ List.mem_cons_self
    exact ih fun e he => h e (List.mem_cons_of_mem _ he)

/-! ## Places along a row -/

/-- The positions that lead from the top of a module to an entry, outermost first. -/
abbrev Place := List Nat

/-- A place in a row that starts at `position`. -/
def Place.From (position : Nat) (place : Place) : Prop :=
  ∃ head below, place = head :: below ∧ position ≤ head

section

variable {α : Type} {position : Nat} {xs ys : List (Place × α)}

/-- What a row lists is below its first entry, or in the rest of the row. -/
theorem from_of_mem_row (hys : ∀ y ∈ ys, Place.From (position + 1) y.1) {x : Place × α}
    (h : x ∈ xs.map (fun x => (position :: x.1, x.2)) ++ ys) : Place.From position x.1 := by
  rcases List.mem_append.1 h with h | h
  · obtain ⟨y, -, rfl⟩ := List.mem_map.1 h
    exact ⟨position, y.1, rfl, Nat.le_refl _⟩
  · obtain ⟨head, below, hx, hle⟩ := hys x h
    exact ⟨head, below, hx, Nat.le_of_succ_le hle⟩

/-- Places come in the order of the source text: earlier positions first, and what is outside
before what is inside. -/
def InOrder (xs : List (Place × α)) : Prop :=
  xs.Pairwise fun x y => x.1 < y.1

/-- In such a list no place comes twice. -/
theorem InOrder.keyed (h : InOrder xs) : Keyed xs := by
  refine List.pairwise_map.2 (h.imp fun hlt heq => ?_)
  rw [heq] at hlt
  exact List.lt_irrefl _ hlt

/-- A row is in order if what is below its first entry is, and the rest. -/
theorem InOrder.row (hxs : InOrder xs) (hys : InOrder ys)
    (hrest : ∀ y ∈ ys, Place.From (position + 1) y.1) :
    InOrder (xs.map (fun x => (position :: x.1, x.2)) ++ ys) := by
  refine List.pairwise_append.2 ⟨List.pairwise_map.2 ?_, hys, ?_⟩
  · exact hxs.imp fun hlt => List.cons_lt_cons_iff.2 (.inr ⟨rfl, hlt⟩)
  · intro x hx y hy
    obtain ⟨z, -, rfl⟩ := List.mem_map.1 hx
    obtain ⟨head, below, hhead, hle⟩ := hrest y hy
    rw [hhead]
    exact List.cons_lt_cons_iff.2 (.inl hle)

end

/-! ## Searches in an order -/

/-- In a list that is in order, a search finds the element that nothing of its kind comes before. -/
theorem find?_eq_some_iff_of_pairwise {α : Type} {r : α → α → Prop} (hr : ∀ a b, r a b → ¬ r b a)
    {p : α → Bool} {xs : List α} (h : xs.Pairwise r) {x : α} :
    xs.find? p = some x ↔ x ∈ xs ∧ p x ∧ ∀ y ∈ xs, p y → ¬ r y x := by
  constructor
  · intro hfind
    obtain ⟨hx, before, after, rfl, hbefore⟩ := List.find?_eq_some_iff_append.1 hfind
    refine ⟨by simp, hx, fun y hy hpy hlt => ?_⟩
    rcases List.mem_append.1 hy with hy | hy
    · exact absurd hpy (by simpa using hbefore y hy)
    · rcases List.mem_cons.1 hy with rfl | hy
      · exact hr y y hlt hlt
      · have hcons := (List.pairwise_append.1 h).2.1
        exact hr y x hlt (List.rel_of_pairwise_cons hcons hy)
  · rintro ⟨hmem, hx, hfirst⟩
    obtain ⟨before, after, rfl⟩ := List.append_of_mem hmem
    refine List.find?_eq_some_iff_append.2 ⟨hx, before, after, rfl, fun y hy => ?_⟩
    have hlt : r y x := (List.pairwise_append.1 h).2.2 y hy x List.mem_cons_self
    simpa using fun hpy => hfirst y (List.mem_append_left _ hy) hpy hlt

/-! ## Types with their places

The index goes through a module in the same way. What is added here are the positions. -/

mutual

/-- The types of one entry with their places below it. -/
def Entry.placed (path : String) : Entry → List (Place × IndexedType)
  | ⟨_, _, .scope ⟨name, _, _, ⟨entries, _⟩, _⟩⟩ => placedUnder (qualify path name) 0 entries
  | ⟨leading, notes, .type type⟩ => [([], ⟨path, leading, notes, type⟩)]
  | ⟨_, _, .method _⟩ => []
  | ⟨_, _, .verbatim _⟩ => []

/-- The types of a row of entries with their places, in source order; the first entry of the row
stands at `position`. -/
def placedUnder (path : String) (position : Nat) : List Entry → List (Place × IndexedType)
  | [] => []
  | e :: rest =>
    (e.placed path).map (fun p => (position :: p.1, p.2))
      ++ placedUnder (e.pathAfter path) (position + 1) rest

end

/-- The types of a module with their places, in source order. -/
def SourceModule.placedTypes (m : SourceModule) : List (Place × IndexedType) :=
  placedUnder "" 0 m.body.entries

/-- The first type of a module with a qualified name, and where it stands. -/
def SourceModule.firstOf? (m : SourceModule) (name : String) : Option (Place × IndexedType) :=
  m.placedTypes.find? (·.2.qualified = name)

theorem map_snd_placedUnder (path : String) (position : Nat) (es : List Entry) :
    (placedUnder path position es).map Prod.snd = typesUnder path es := by
  induction es using row_induction generalizing path position with
  | nil => rfl
  | scope _ _ name form _ entries _ _ rest ihBody ihRest =>
    simp only [placedUnder, Entry.placed, typesUnder, Entry.types, List.map_append, List.map_map,
      ihRest]
    exact congrArg (· ++ _) (ihBody (qualify path name) 0)
  | type _ _ t rest ih => simp [placedUnder, Entry.placed, typesUnder, Entry.types, ih]
  | method _ _ m rest ih => simp [placedUnder, Entry.placed, typesUnder, Entry.types, ih]
  | verbatim _ _ text rest ih => simp [placedUnder, Entry.placed, typesUnder, Entry.types, ih]

theorem types_ofModule (m : SourceModule) :
    (Index.ofModule m).types = m.placedTypes.map Prod.snd :=
  (map_snd_placedUnder "" 0 m.body.entries).symm

/-- What the index finds under a name is what stands first under it. -/
theorem get?_ofModule (m : SourceModule) (name : String) :
    (Index.ofModule m).get? name = (m.firstOf? name).map Prod.snd := by
  rw [Index.get?, types_ofModule, List.find?_map]
  rfl

/-- Where no two types have one name, every type is found under its name. -/
theorem Index.get?_of_mem {index : Index} (h : (index.types.map IndexedType.qualified).Nodup)
    {t : IndexedType} (ht : t ∈ index.types) : index.get? t.qualified = some t :=
  find?_of_nodup h ht

/-- Where no two types have one name, every type is the first of its name. -/
theorem SourceModule.firstOf?_of_mem {m : SourceModule}
    (h : ((Index.ofModule m).types.map IndexedType.qualified).Nodup)
    {x : Place × IndexedType} (hx : x ∈ m.placedTypes) :
    m.firstOf? x.2.qualified = some x := by
  rw [types_ofModule, List.map_map] at h
  exact find?_of_nodup h hx

theorem mem_types_of_placed {m : SourceModule} {place : Place} {t : IndexedType}
    (h : (place, t) ∈ m.placedTypes) : t ∈ (Index.ofModule m).types := by
  rw [types_ofModule]
  exact List.mem_map_of_mem h

theorem placedUnder_append (path : String) (position : Nat) (xs ys : List Entry) :
    placedUnder path position (xs ++ ys)
      = placedUnder path position xs
        ++ placedUnder (pathAfterRow path xs) (position + xs.length) ys := by
  induction xs generalizing path position with
  | nil => rfl
  | cons e rest ih =>
    simp [placedUnder, ih, pathAfterRow, Nat.add_assoc, Nat.add_comm 1]

theorem from_of_mem_placedUnder {path : String} {position : Nat} {es : List Entry}
    {x : Place × IndexedType} (h : x ∈ placedUnder path position es) : Place.From position x.1 := by
  induction es generalizing path position x with
  | nil => simp [placedUnder] at h
  | cons e rest ih => exact from_of_mem_row (fun _ => ih) h

/-- The types of a row come in the order of the source text. -/
theorem inOrder_placedUnder (path : String) (position : Nat) (es : List Entry) :
    InOrder (placedUnder path position es) := by
  have hcons : ∀ (path : String) (position : Nat) (e : Entry) (rest : List Entry),
      InOrder (e.placed path) → InOrder (placedUnder (e.pathAfter path) (position + 1) rest) →
      InOrder (placedUnder path position (e :: rest)) :=
    fun _ _ _ _ he hrest => he.row hrest fun _ => from_of_mem_placedUnder
  induction es using row_induction generalizing path position with
  | nil => exact .nil
  | scope _ _ name form _ entries _ _ rest ihBody ihRest =>
    exact hcons _ _ _ _ (ihBody (qualify path name) 0) (ihRest _ _)
  | type _ _ t rest ih => exact hcons _ _ _ _ (List.pairwise_singleton _ _) (ih _ _)
  | method _ _ m rest ih => exact hcons _ _ _ _ .nil (ih _ _)
  | verbatim _ _ text rest ih => exact hcons _ _ _ _ .nil (ih _ _)

/-- No two types stand at one place. -/
theorem keyed_placedUnder (path : String) (position : Nat) (es : List Entry) :
    Keyed (placedUnder path position es) :=
  (inOrder_placedUnder path position es).keyed

/-- `Stands path es place t`: in the row `es`, which starts under the namespace path `path`, the
type `t` stands at `place`. A position is how many entries come before, and the path of a type is
the one that holds after them. -/
inductive Stands : String → List Entry → Place → IndexedType → Prop
  | here {path leading : String} {notes : List String} {t : TypeDecl} {before after : List Entry} :
      Stands path (before ++ ⟨leading, notes, .type t⟩ :: after) [before.length]
        ⟨pathAfterRow path before, leading, notes, t⟩
  | inside {path leading : String} {notes : List String} {name : String} {form : ScopeForm}
      {header trailing footer : String} {entries before after : List Entry} {place : Place}
      {t : IndexedType} :
      Stands (qualify (pathAfterRow path before) name) entries place t →
      Stands path
        (before ++ ⟨leading, notes, .scope ⟨name, form, header, ⟨entries, trailing⟩, footer⟩⟩
          :: after)
        (before.length :: place) t

/-- A type that stands somewhere is listed there. -/
theorem mem_placedUnder_of_stands {path : String} {es : List Entry} {place : Place}
    {t : IndexedType} (h : Stands path es place t) : (place, t) ∈ placedUnder path 0 es := by
  induction h with
  | here =>
    rw [placedUnder_append]
    refine List.mem_append_right _ ?_
    simp [placedUnder, Entry.placed]
  | inside _ ih =>
    -- The row of the body starts again at nought.
    rw [placedUnder_append, Nat.zero_add, placedUnder, Entry.placed]
    exact List.mem_append_right _ (List.mem_append_left _ (List.mem_map.2 ⟨_, ih, rfl⟩))

theorem stands_of_mem_placedUnder {path : String} {es before : List Entry} {place : Place}
    {t : IndexedType}
    (h : (place, t) ∈ placedUnder (pathAfterRow path before) before.length es) :
    Stands path (before ++ es) place t := by
  -- Along a row, an entry goes over to what came before the rest.
  have hpast : ∀ (path : String) (before : List Entry) (e : Entry) (rest : List Entry),
      placedUnder (e.pathAfter (pathAfterRow path before)) (before.length + 1) rest
          = placedUnder (pathAfterRow path (before ++ [e])) (before ++ [e]).length rest
        ∧ before ++ e :: rest = (before ++ [e]) ++ rest := by
    intro path before e rest
    rw [pathAfterRow_append, List.length_append]
    exact ⟨rfl, by simp⟩
  induction es using row_induction generalizing path before place t with
  | nil => simp [placedUnder] at h
  | scope leading notes name form header entries trailing footer rest ihBody ihRest =>
    rcases List.mem_append.1 h with h | h
    · obtain ⟨⟨below, found⟩, hbody, heq⟩ := List.mem_map.1 h
      obtain ⟨rfl, rfl⟩ := Prod.mk.inj heq
      exact .inside (@ihBody _ [] below found hbody)
    · obtain ⟨hplaced, hrow⟩ := hpast path before
        ⟨leading, notes, .scope ⟨name, form, header, ⟨entries, trailing⟩, footer⟩⟩ rest
      rw [hrow]
      exact ihRest (hplaced ▸ h)
  | type leading notes type rest ih =>
    rcases List.mem_append.1 h with h | h
    · obtain ⟨rfl, rfl⟩ : place = [before.length]
          ∧ t = ⟨pathAfterRow path before, leading, notes, type⟩ := by
        simpa [Entry.placed] using h
      exact .here
    · obtain ⟨hplaced, hrow⟩ := hpast path before ⟨leading, notes, .type type⟩ rest
      rw [hrow]
      exact ih (hplaced ▸ h)
  | method leading notes m rest ih =>
    obtain ⟨hplaced, hrow⟩ := hpast path before ⟨leading, notes, .method m⟩ rest
    rw [hrow]
    exact ih (hplaced ▸ h)
  | verbatim leading notes text rest ih =>
    obtain ⟨hplaced, hrow⟩ := hpast path before ⟨leading, notes, .verbatim text⟩ rest
    rw [hrow]
    exact ih (hplaced ▸ h)

/-- A type stands at a place of a module. -/
def SourceModule.Has (m : SourceModule) (place : Place) (t : IndexedType) : Prop :=
  Stands "" m.body.entries place t

/-- **The list of types with places has every type that stands in the module**, and no other. -/
theorem mem_placedTypes_iff {m : SourceModule} {place : Place} {t : IndexedType} :
    (place, t) ∈ m.placedTypes ↔ m.Has place t :=
  ⟨@stands_of_mem_placedUnder "" m.body.entries [] place t, mem_placedUnder_of_stands⟩

/-- What stands first under a name: nothing with the name stands before it. -/
theorem firstOf?_eq_some_iff {m : SourceModule} {name : String} {place : Place}
    {t : IndexedType} :
    m.firstOf? name = some (place, t)
      ↔ m.Has place t ∧ t.qualified = name
        ∧ ∀ place' y, m.Has place' y → y.qualified = name → ¬ place' < place := by
  have horder : m.placedTypes.Pairwise fun x y => x.1 < y.1 :=
    inOrder_placedUnder "" 0 m.body.entries
  have hasymm : ∀ x y : Place × IndexedType, x.1 < y.1 → ¬ y.1 < x.1 :=
    fun x y hlt hgt => List.lt_irrefl x.1 (List.lt_trans hlt hgt)
  rw [SourceModule.firstOf?, find?_eq_some_iff_of_pairwise hasymm horder]
  simp only [mem_placedTypes_iff, decide_eq_true_eq, Prod.forall]

/-- The type that stands at a place of a module. -/
def SourceModule.typeAt? (m : SourceModule) (place : Place) : Option IndexedType :=
  valueOf? place m.placedTypes

theorem SourceModule.typeAt?_of_mem {m : SourceModule} {place : Place} {t : IndexedType}
    (h : (place, t) ∈ m.placedTypes) : m.typeAt? place = some t :=
  valueOf?_of_mem (keyed_placedUnder "" 0 m.body.entries) h

/-- Among entries that are all types, each is listed under the path before the row. -/
theorem mem_placedUnder_of_types (path : String) (position : Nat) {run : List Entry}
    (h : ∀ e ∈ run, ∃ t, e.decl = .type t) {leading : String} {notes : List String} {t : TypeDecl}
    (he : ⟨leading, notes, .type t⟩ ∈ run) :
    ∃ place, (place, ⟨path, leading, notes, t⟩) ∈ placedUnder path position run := by
  obtain ⟨before, after, rfl⟩ := List.append_of_mem he
  have hbefore : pathAfterRow path before = path :=
    pathAfterRow_of_types fun e hmem => h e (List.mem_append_left _ hmem)
  refine ⟨[position + before.length], ?_⟩
  rw [placedUnder_append, hbefore]
  refine List.mem_append_right _ ?_
  simp [placedUnder, Entry.placed]

/-! ## Methods with their places

A type has its methods in one row, so a place is one position here. Whatever else stands in the body
of a type is text, but it has its position. -/

theorem membersFrom_append (position : Nat) (xs ys : List Entry) :
    membersFrom position (xs ++ ys)
      = membersFrom position xs ++ membersFrom (position + xs.length) ys := by
  induction xs generalizing position with
  | nil => rfl
  | cons e rest ih =>
    obtain ⟨leading, notes, decl⟩ := e
    cases decl <;> simp [membersFrom, ih, Nat.add_assoc, Nat.add_comm 1]

/-- The methods of a row are its method entries with their places. -/
theorem mem_membersFrom_iff {position : Nat} {es : List Entry} {m : Member} :
    m ∈ membersFrom position es ↔ (m.entry, m.position) ∈ es.zipIdx position := by
  induction es generalizing position with
  | nil => simp [membersFrom]
  | cons e rest ih =>
    obtain ⟨leading, notes, decl⟩ := e
    obtain ⟨mposition, mleading, mnotes, method⟩ := m
    cases decl <;> simp [membersFrom, ih, Member.entry, and_comm]

theorem position_lt_of_mem_membersFrom {position : Nat} {es : List Entry} {m : Member}
    (h : m ∈ membersFrom position es) : m.position < position + es.length :=
  (List.mem_zipIdx (mem_membersFrom_iff.1 h)).2.1

/-- The methods of a row come by their places. -/
theorem pairwise_membersFrom (position : Nat) (es : List Entry) :
    (membersFrom position es).Pairwise fun m n => m.position < n.position := by
  induction es generalizing position with
  | nil => exact .nil
  | cons e rest ih =>
    obtain ⟨leading, notes, decl⟩ := e
    cases decl with
    | method m =>
      refine .cons (fun n hn => ?_) (ih (position + 1))
      exact List.le_snd_of_mem_zipIdx (mem_membersFrom_iff.1 hn)
    | scope _ | type _ | verbatim _ => exact ih (position + 1)

/-- The methods of a type are the method entries of its body, with their places. -/
theorem TypeDecl.mem_members_iff {t : TypeDecl} {m : Member} :
    m ∈ t.members ↔ t.body.entries[m.position]? = some m.entry :=
  mem_membersFrom_iff.trans List.mk_mem_zipIdx_iff_getElem?

/-- No two methods of a type stand at one place. -/
theorem TypeDecl.eq_of_position_eq {t : TypeDecl} {m n : Member} (hm : m ∈ t.members)
    (hn : n ∈ t.members) (h : m.position = n.position) : m = n := by
  have hentry := List.mk_mem_zipIdx_iff_getElem?.1 (mem_membersFrom_iff.1 hm)
  rw [h, List.mk_mem_zipIdx_iff_getElem?.1 (mem_membersFrom_iff.1 hn)] at hentry
  obtain ⟨position, leading, notes, method⟩ := m
  obtain ⟨position', leading', notes', method'⟩ := n
  simp_all [Member.entry]

theorem TypeDecl.exists_member_of_mem {t : TypeDecl} {e : Entry} {m : Method}
    (he : e ∈ t.body.entries) (hm : e.decl = .method m) : ∃ n ∈ t.members, n.method = m := by
  obtain ⟨leading, notes, decl⟩ := e
  obtain rfl : decl = .method m := hm
  obtain ⟨position, hposition⟩ := List.getElem?_of_mem he
  refine ⟨⟨position, leading, notes, m⟩, mem_membersFrom_iff.2 ?_, rfl⟩
  exact List.mk_mem_zipIdx_iff_getElem?.2 hposition

theorem TypeDecl.isSome_member?_of_mem {t : TypeDecl} {m : Member} (hm : m ∈ t.members) :
    (t.member? m.signature).isSome :=
  List.find?_isSome.2 ⟨m, hm, decide_eq_true rfl⟩

/-- What a signature means stands at its place and has the signature. -/
theorem TypeDecl.getElem?_of_member? {t : TypeDecl} {signature : String} {m : Member}
    (h : t.member? signature = some m) :
    t.body.entries[m.position]? = some m.entry ∧ m.signature = signature := by
  have hmem := mem_membersFrom_iff.1 (List.mem_of_find?_eq_some h)
  exact ⟨List.mk_mem_zipIdx_iff_getElem?.1 hmem, by simpa using List.find?_some h⟩

/-- What a signature means: no method with the signature stands before it. -/
theorem TypeDecl.member?_eq_some_iff {t : TypeDecl} {signature : String} {m : Member} :
    t.member? signature = some m
      ↔ t.body.entries[m.position]? = some m.entry ∧ m.signature = signature
        ∧ ∀ position < m.position, ∀ leading notes n,
          t.body.entries[position]? = some ⟨leading, notes, .method n⟩ →
            n.signature ≠ signature := by
  have horder : t.members.Pairwise fun m n => m.position < n.position :=
    pairwise_membersFrom 0 t.body.entries
  have hasymm : ∀ m n : Member, m.position < n.position → ¬ n.position < m.position :=
    fun _ _ => Nat.lt_asymm
  rw [member?, find?_eq_some_iff_of_pairwise hasymm horder, decide_eq_true_eq, mem_members_iff]
  refine and_congr_right fun _ => and_congr_right fun _ => ?_
  constructor
  · intro hfirst position hlt leading notes n hentry hsignature
    exact hfirst ⟨position, leading, notes, n⟩ (mem_members_iff.2 hentry)
      (decide_eq_true hsignature) hlt
  · intro hfirst n hn hsignature hlt
    exact hfirst n.position hlt _ _ _ (mem_members_iff.1 hn) (of_decide_eq_true hsignature)

/-- A signature means nothing if no method has it. -/
theorem TypeDecl.member?_eq_none_iff {t : TypeDecl} {signature : String} :
    t.member? signature = none
      ↔ ∀ e ∈ t.body.entries, ∀ n, e.decl = .method n → n.signature ≠ signature := by
  rw [member?, List.find?_eq_none]
  constructor
  · intro hnone e he m hm hsignature
    obtain ⟨n, hn, rfl⟩ := exists_member_of_mem he hm
    exact hnone n hn (decide_eq_true hsignature)
  · intro hnone n hn hsignature
    have hentry := List.mem_of_getElem? (mem_members_iff.1 hn)
    exact hnone n.entry hentry n.method rfl (of_decide_eq_true hsignature)

/-- A method is what its signature means in its type if no method before it has the signature;
otherwise the signature means a method before it. -/
theorem TypeDecl.member?_of_entries {t : TypeDecl} {before after : List Entry} {leading : String}
    {notes : List String} {m : Method}
    (h : t.body.entries = before ++ ⟨leading, notes, .method m⟩ :: after) :
    (m.signature ∉ (membersFrom 0 before).map Member.signature
        ∧ t.member? m.signature = some ⟨before.length, leading, notes, m⟩)
      ∨ (m.signature ∈ (membersFrom 0 before).map Member.signature
        ∧ ∃ first, t.member? m.signature = some first ∧ first.position < before.length) := by
  have hmember : t.member? m.signature
      = ((membersFrom 0 before).find? (·.signature = m.signature)).or
        (some ⟨before.length, leading, notes, m⟩) := by
    rw [member?, members, h, membersFrom_append, List.find?_append, membersFrom]
    simp [Member.signature]
  cases hbefore : (membersFrom 0 before).find? (·.signature = m.signature) with
  | none =>
    refine .inl ⟨?_, by rw [hmember, hbefore]; rfl⟩
    simpa using hbefore
  | some first =>
    have hmem := List.mem_of_find?_eq_some hbefore
    have hsignature : first.signature = m.signature := by simpa using List.find?_some hbefore
    refine .inr ⟨hsignature ▸ List.mem_map_of_mem hmem, first, by rw [hmember, hbefore]; rfl, ?_⟩
    simpa using position_lt_of_mem_membersFrom hmem

/-! ## Ends of block namespaces -/

mutual

/-- The block namespaces of one entry in the order of their ends: the path of each, and the path
that holds where its body ends. The two differ if a namespace in file form stands in the body. -/
def Entry.closings (path : String) : Entry → List (String × String)
  | ⟨_, _, .scope ⟨name, form, _, ⟨entries, _⟩, _⟩⟩ =>
    closingsUnder (qualify path name) entries
      ++ match form with
        | .block => [(qualify path name, pathAfterRow (qualify path name) entries)]
        | .file => []
  | ⟨_, _, .type _⟩ => []
  | ⟨_, _, .method _⟩ => []
  | ⟨_, _, .verbatim _⟩ => []

/-- The block namespaces of a row of entries in the order of their ends. -/
def closingsUnder (path : String) : List Entry → List (String × String)
  | [] => []
  | e :: rest => e.closings path ++ closingsUnder (e.pathAfter path) rest

end

end ModuleMerge
