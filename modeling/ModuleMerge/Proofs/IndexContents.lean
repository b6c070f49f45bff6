import ModuleMerge.Proofs.IndexTable

/-!
# What the index holds

The index is made by a walk that carries a namespace path along as one text: a namespace in block
form lengthens it for its body, one in file form for what comes after it. What a name means should
be said without that text. Here a declaration has the list of namespaces that reach it, read off the
tree by going down to it, and its qualified name is these names and its own, joined by dots.

* `Reached` goes down to a declaration, and `dotted` joins names; `stands_iff_reached` says that
  the walk finds the same path.
* `Index.Reflects` says what an index of a module has to answer, and `TypeDecl.ListsMethods` what
  the list of methods of a type has to.
* `index_reflects` is the main result; it is also about the tables that answer without a walk.
-/

set_option autoImplicit false

namespace ModuleMerge

/-! ## Names joined by dots -/

/-- Names joined by dots; empty names at the front add nothing. -/
def dotted : List String → String
  | [] => ""
  | name :: names =>
    if name = "" then dotted names else name ++ String.join (names.map fun n => "." ++ n)

theorem dotted_concat (names : List String) (name : String) :
    dotted (names ++ [name]) = qualify (dotted names) name := by
  induction names with
  | nil => by_cases h : name = "" <;> simp [dotted, h]
  | cons head rest ih =>
    rw [List.cons_append, dotted, dotted, ih]
    split
    · rfl
    · rename_i hhead
      have hpath : head ++ String.join (rest.map fun n => "." ++ n) ≠ "" := by
        simp [String.append_eq_empty_iff, hhead]
      rw [qualify, if_neg hpath, List.map_append, ← String.toList_inj]
      simp [String.toList_join]

/-- A path with more names behind it. -/
theorem foldl_qualify_dotted (before names : List String) :
    names.foldl qualify (dotted before) = dotted (before ++ names) := by
  induction names generalizing before with
  | nil => rw [List.foldl_nil, List.append_nil]
  | cons name rest ih => rw [List.foldl_cons, ← dotted_concat, ih, List.append_assoc]; rfl

example : dotted ["", "App", "Core.Log", ""] = "App.Core.Log." := by decide

/-! ## The namespaces that reach a declaration -/

/-- The name of a namespace in file form. -/
def Entry.fileName? : Entry → Option String
  | ⟨_, _, .scope ⟨name, .file, _, _, _⟩⟩ => some name
  | _ => none

/-- The names of the namespaces in file form of a row. -/
def fileNames (es : List Entry) : List String :=
  es.filterMap Entry.fileName?

/-- `Reached es place names e`: in the row `es` the type declaration `e` stands at `place`, outside
of all types, and `names` are those of the namespaces that reach it, the outermost first. In every
row on the way these are the namespaces in file form that come before, and then the namespace that
is entered. -/
inductive Reached : List Entry → Place → List String → Entry → Prop
  | here {leading : String} {notes : List String} {t : TypeDecl} {before after : List Entry} :
      Reached (before ++ ⟨leading, notes, .type t⟩ :: after) [before.length] (fileNames before)
        ⟨leading, notes, .type t⟩
  | inside {leading : String} {notes : List String} {scope : Scope} {before after : List Entry}
      {place : Place} {names : List String} {e : Entry} :
      Reached scope.body.entries place names e →
      Reached (before ++ ⟨leading, notes, .scope scope⟩ :: after) (before.length :: place)
        (fileNames before ++ scope.name :: names) e

theorem pathAfter_eq_foldl (path : String) (e : Entry) :
    e.pathAfter path = e.fileName?.toList.foldl qualify path := by
  match e with
  | ⟨_, _, .scope ⟨_, .block, _, _, _⟩⟩ => rfl
  | ⟨_, _, .scope ⟨_, .file, _, _, _⟩⟩ => rfl
  | ⟨_, _, .type _⟩ => rfl
  | ⟨_, _, .method _⟩ => rfl
  | ⟨_, _, .verbatim _⟩ => rfl

theorem pathAfterRow_eq_foldl (path : String) (es : List Entry) :
    pathAfterRow path es = (fileNames es).foldl qualify path := by
  induction es generalizing path with
  | nil => rfl
  | cons e rest ih =>
    have hnames : fileNames (e :: rest) = e.fileName?.toList ++ fileNames rest := by
      rw [fileNames, List.filterMap_cons]
      cases e.fileName? <;> rfl
    rw [pathAfterRow, ih, pathAfter_eq_foldl, hnames, List.foldl_append]

/-- The path that the walk carries to a declaration is made of the names that reach it. -/
theorem stands_iff_reached {path : String} {es : List Entry} {place : Place} {t : IndexedType} :
    Stands path es place t
      ↔ ∃ names, Reached es place names t.entry ∧ t.path = names.foldl qualify path := by
  constructor
  · intro h
    induction h with
    | here => exact ⟨_, .here, pathAfterRow_eq_foldl _ _⟩
    | inside _ ih =>
      obtain ⟨names, hreached, hpath⟩ := ih
      refine ⟨_, .inside hreached, ?_⟩
      rw [hpath, pathAfterRow_eq_foldl, List.foldl_append, List.foldl_cons]
  · rintro ⟨names, hreached, hpath⟩
    generalize hentry : t.entry = e at hreached
    induction hreached generalizing path with
    | @here leading notes type before after =>
      obtain ⟨tpath, tleading, tnotes, ttype⟩ := t
      obtain ⟨rfl, rfl, rfl⟩ : tleading = leading ∧ tnotes = notes ∧ ttype = type := by
        simpa [IndexedType.entry] using hentry
      obtain rfl : tpath = pathAfterRow path before :=
        hpath.trans (pathAfterRow_eq_foldl path before).symm
      exact .here
    | @inside leading notes scope before after place names e _ ih =>
      obtain ⟨name, form, header, ⟨entries, trailing⟩, footer⟩ := scope
      refine .inside (ih ?_ hentry)
      rw [hpath, pathAfterRow_eq_foldl, List.foldl_append, List.foldl_cons]

/-- A module declares a type at a place: the namespaces that reach it give the type its path, and
with the name of the type they give the qualified name. -/
def SourceModule.DeclaresAt (m : SourceModule) (place : Place) (qualified : String)
    (t : IndexedType) : Prop :=
  ∃ names, Reached m.body.entries place names t.entry ∧ t.path = dotted names
    ∧ qualified = dotted (names ++ [t.type.name])

/-- Such a declaration stands where the walk finds it, under the name that the walk gives it. -/
theorem SourceModule.declaresAt_iff {m : SourceModule} {place : Place} {qualified : String}
    {t : IndexedType} :
    m.DeclaresAt place qualified t ↔ m.Has place t ∧ t.qualified = qualified := by
  have hpath : ∀ names : List String, names.foldl qualify "" = dotted names :=
    foldl_qualify_dotted []
  rw [Has, stands_iff_reached]
  constructor
  · rintro ⟨names, hreached, htpath, rfl⟩
    refine ⟨⟨names, hreached, htpath.trans (hpath names).symm⟩, ?_⟩
    rw [IndexedType.qualified, htpath, dotted_concat]
  · rintro ⟨⟨names, hreached, htpath⟩, rfl⟩
    refine ⟨names, hreached, htpath.trans (hpath names), ?_⟩
    rw [IndexedType.qualified, htpath, hpath, dotted_concat]

/-! ## The types of a module -/

/-- An index has every type that a module declares outside of types, once each and in the order of
the source text, and a name means the first declaration with it. -/
structure Index.Reflects (index : Index) (m : SourceModule) : Prop where
  lists : ∃ places : List Place, places.length = index.types.length ∧ places.Pairwise (· < ·)
    ∧ ∀ place t, (place, t) ∈ places.zip index.types ↔ m.DeclaresAt place t.qualified t
  get?_eq_some_iff : ∀ name t, index.get? name = some t
    ↔ ∃ place, m.DeclaresAt place name t
      ∧ ∀ place' t', m.DeclaresAt place' name t' → ¬ place' < place
  get?_eq_none_iff : ∀ name, index.get? name = none ↔ ∀ place t, ¬ m.DeclaresAt place name t
  contains : ∀ name, index.contains name = (index.get? name).isSome

theorem reflects_ofModule (m : SourceModule) : (Index.ofModule m).Reflects m where
  lists := by
    have hzip : (m.placedTypes.map Prod.fst).zip (Index.ofModule m).types = m.placedTypes := by
      rw [types_ofModule, List.zip_map']
      exact List.map_id _
    refine ⟨m.placedTypes.map Prod.fst, by simp [types_ofModule], ?_, fun place t => ?_⟩
    · exact List.pairwise_map.2 (inOrder_placedUnder "" 0 m.body.entries)
    · rw [hzip, mem_placedTypes_iff, SourceModule.declaresAt_iff, and_iff_left rfl]
  get?_eq_some_iff name t := by
    simp only [get?_ofModule, Option.map_eq_some_iff, Prod.exists, firstOf?_eq_some_iff,
      SourceModule.declaresAt_iff, and_assoc, and_imp]
    constructor
    · rintro ⟨place, _, hhas, hname, hfirst, rfl⟩
      exact ⟨place, hhas, hname, hfirst⟩
    · rintro ⟨place, hhas, hname, hfirst⟩
      exact ⟨place, t, hhas, hname, hfirst, rfl⟩
  get?_eq_none_iff name := by
    rw [get?_ofModule, Option.map_eq_none_iff, SourceModule.firstOf?, List.find?_eq_none]
    simp only [SourceModule.declaresAt_iff, mem_placedTypes_iff, not_and, decide_eq_true_eq,
      Prod.forall]
  contains name := Index.contains_eq_isSome_get? _ name

/-! ## The methods of a type -/

/-- The list of methods of a type has every method that stands directly in its body, once each and
in order, with the number of entries of any kind before it; and a signature, which is a name with a
parameter list, means the first method with it. -/
structure TypeDecl.ListsMethods (t : TypeDecl) : Prop where
  inOrder : t.members.Pairwise fun m n => m.position < n.position
  mem_iff : ∀ m, m ∈ t.members ↔ t.body.entries[m.position]? = some m.entry
  signature : ∀ m ∈ t.members, m.signature = m.method.name ++ m.method.parameters
  member?_eq_some_iff : ∀ signature m, t.member? signature = some m
    ↔ t.body.entries[m.position]? = some m.entry
      ∧ m.method.name ++ m.method.parameters = signature
      ∧ ∀ position < m.position, ∀ leading notes n,
        t.body.entries[position]? = some ⟨leading, notes, .method n⟩ →
          n.name ++ n.parameters ≠ signature
  member?_eq_none_iff : ∀ signature, t.member? signature = none
    ↔ ∀ e ∈ t.body.entries, ∀ n, e.decl = .method n → n.name ++ n.parameters ≠ signature

theorem TypeDecl.listsMethods (t : TypeDecl) : t.ListsMethods where
  inOrder := pairwise_membersFrom 0 t.body.entries
  mem_iff _ := mem_members_iff
  signature _ _ := rfl
  member?_eq_some_iff _ _ := TypeDecl.member?_eq_some_iff
  member?_eq_none_iff _ := TypeDecl.member?_eq_none_iff

/-- **The index of a module has its declarations, and a name means the first one.** A table that is
filled in one walk has the same types and the same answers, and so it is with the methods of every
type. -/
theorem index_reflects (m : SourceModule) :
    (Index.ofModule m).Reflects m
      ∧ m.typeTable.Holds IndexedType.qualified (Index.ofModule m).types
      ∧ (∀ name, m.typeTable.get? name = (Index.ofModule m).get? name
        ∧ m.typeTable.contains name = (Index.ofModule m).contains name)
      ∧ ∀ t : TypeDecl, t.ListsMethods
        ∧ t.memberTable.Holds Member.signature t.members
        ∧ ∀ signature, t.memberTable.get? signature = t.member? signature :=
  have htypes := holds_typeTable m
  ⟨reflects_ofModule m, htypes, fun name => ⟨htypes.get? name, htypes.contains name⟩,
    fun t => ⟨t.listsMethods, holds_memberTable t, (holds_memberTable t).get?⟩⟩

end ModuleMerge
