import ModuleMerge.Proofs.Additions

/-!
# Notes anywhere in a module

A merge puts notes on declarations: on members of types, and on new types. Whether a note is put
only once is a question about the whole module, so all entries are listed here, whatever they stand
in, and those with notes are followed through the making of the merged module.

A merged module can not be compared with the first input entry by entry, since a type that is edited
is another entry afterwards. What is compared instead is the list of all entries with notes, up to
order: a row is the sum of its entries here, and an entry without notes counts for what is inside
it. With bare inputs every note is a new one, so nothing has to be said about which notes are old.

Types are the reason why two stages have to be followed separately. Edits put notes inside types
that stay where they are, while new types are put in, and taking them out again is the easier way
to count. Both walks are over the whole tree, and at each level the entry itself must be without
notes, or it would be counted along with what is in it.

* `everyEntry` lists the entries of a row and all entries inside them, and `notedEntries` those of
  them that have notes.
* `notedEntries_takingOut` says that new types bring their notes along, each once.
* `notedEntries_editEntries` says that editing a row without notes puts notes into the edited types
  only, and `flatMap_editPlaced_perm` that every edit of a table comes to one type.
-/

set_option autoImplicit false

namespace ModuleMerge

/-! ## Entries at every depth -/

mutual

/-- The entries inside a declaration, at every depth. -/
def Decl.inside : Decl → List Entry
  | .scope ⟨_, _, _, ⟨entries, _⟩, _⟩ => everyEntry entries
  | .type ⟨_, _, ⟨entries, _⟩, _⟩ => everyEntry entries
  | .method _ => []
  | .verbatim _ => []

/-- The entries of a row, each before all entries inside it. -/
def everyEntry : List Entry → List Entry
  | [] => []
  | ⟨leading, notes, decl⟩ :: rest => ⟨leading, notes, decl⟩ :: (decl.inside ++ everyEntry rest)

end

/-- All entries of a module. -/
def SourceModule.everyEntry (m : SourceModule) : List Entry :=
  ModuleMerge.everyEntry m.body.entries

/-- No entry of a module has a note on it. -/
def SourceModule.Bare (m : SourceModule) : Prop :=
  ∀ e ∈ m.everyEntry, e.annotations = []

theorem everyEntry_cons (e : Entry) (rest : List Entry) :
    everyEntry (e :: rest) = e :: (e.decl.inside ++ everyEntry rest) := by
  cases e
  rw [everyEntry]

theorem inside_type (t : TypeDecl) : (Decl.type t).inside = everyEntry t.body.entries := by
  obtain ⟨name, header, ⟨entries, trailing⟩, footer⟩ := t
  rw [Decl.inside]

@[simp] theorem everyEntry_append (xs ys : List Entry) :
    everyEntry (xs ++ ys) = everyEntry xs ++ everyEntry ys := by
  induction xs with
  | nil => rfl
  | cons e rest ih => simp [everyEntry_cons, ih]

theorem mem_everyEntry_of_mem {es : List Entry} {e : Entry} (h : e ∈ es) : e ∈ everyEntry es := by
  obtain ⟨before, after, rfl⟩ := List.append_of_mem h
  rw [everyEntry_append, everyEntry_cons]
  simp

theorem mem_everyEntry_of_inside {es : List Entry} {e x : Entry} (he : e ∈ es)
    (hx : x ∈ e.decl.inside) : x ∈ everyEntry es := by
  obtain ⟨before, after, rfl⟩ := List.append_of_mem he
  rw [everyEntry_append, everyEntry_cons]
  simp [hx]

/-- Where a type stands, there is its entry, with all that is inside it. -/
theorem Stands.mem_everyEntry {path : String} {es : List Entry} {place : Place} {t : IndexedType}
    (h : Stands path es place t) :
    t.entry ∈ everyEntry es ∧ ∀ x ∈ everyEntry t.type.body.entries, x ∈ everyEntry es := by
  induction h with
  | here =>
    refine ⟨mem_everyEntry_of_mem (by simp [IndexedType.entry]), fun x hx => ?_⟩
    exact mem_everyEntry_of_inside (List.mem_append_right _ List.mem_cons_self)
      (by rwa [inside_type])
  | @inside path leading notes name form header trailing footer entries before after place t _ ih =>
    have hbelow : ∀ x ∈ everyEntry entries, x ∈ everyEntry (before ++
        ⟨leading, notes, .scope ⟨name, form, header, ⟨entries, trailing⟩, footer⟩⟩ :: after) :=
      fun x hx => mem_everyEntry_of_inside (List.mem_append_right _ List.mem_cons_self) hx
    exact ⟨hbelow _ ih.1, fun x hx => hbelow x (ih.2 x hx)⟩

/-- So an indexed type's entry and its members are entries of the module. -/
theorem mem_everyEntry_of_types {m : SourceModule} {t : IndexedType}
    (h : t ∈ (Index.ofModule m).types) :
    t.entry ∈ m.everyEntry
      ∧ ∀ x ∈ ModuleMerge.everyEntry t.type.body.entries, x ∈ m.everyEntry := by
  rw [types_ofModule] at h
  obtain ⟨⟨place, t⟩, hplaced, rfl⟩ := List.mem_map.1 h
  exact (mem_placedTypes_iff.1 hplaced).mem_everyEntry

/-! ## Entries with notes

Order is of no interest from here on, so the statements are about permutations where they can be. -/

/-- Whether an entry has notes. -/
def Entry.hasNotes (e : Entry) : Bool :=
  e.annotations ≠ []

/-- The entries of a row and inside it that have notes. -/
def notedEntries (es : List Entry) : List Entry :=
  (everyEntry es).filter Entry.hasNotes

@[simp] theorem mem_notedEntries_iff {es : List Entry} {e : Entry} :
    e ∈ notedEntries es ↔ e ∈ everyEntry es ∧ e.annotations ≠ [] := by
  simp [notedEntries, Entry.hasNotes]

theorem notedEntries_append (xs ys : List Entry) :
    notedEntries (xs ++ ys) = notedEntries xs ++ notedEntries ys := by
  simp [notedEntries]

theorem notedEntries_cons (e : Entry) (rest : List Entry) :
    notedEntries (e :: rest) = notedEntries [e] ++ notedEntries rest :=
  notedEntries_append [e] rest

theorem notedEntries_perm {es es' : List Entry} (h : es.Perm es') :
    (notedEntries es).Perm (notedEntries es') := by
  have hflat : ∀ row : List Entry, notedEntries row = row.flatMap fun e => notedEntries [e] := by
    intro row
    induction row with
    | nil => rfl
    | cons e rest ih => rw [notedEntries_cons, ih, List.flatMap_cons]
  rw [hflat, hflat es']
  exact h.flatMap_right _

/-- A namespace without notes counts for what is inside it. -/
theorem notedEntries_scope (leading name : String) (form : ScopeForm)
    (header trailing footer : String) (entries : List Entry) :
    notedEntries [⟨leading, [], .scope ⟨name, form, header, ⟨entries, trailing⟩, footer⟩⟩]
      = notedEntries entries := by
  simp [notedEntries, everyEntry, Decl.inside, Entry.hasNotes]

theorem notedEntries_type (leading : String) (t : TypeDecl) :
    notedEntries [⟨leading, [], .type t⟩] = notedEntries t.body.entries := by
  simp [notedEntries, everyEntry, inside_type, Entry.hasNotes]

theorem notedEntries_of_bare {es : List Entry} (h : ∀ e ∈ everyEntry es, e.annotations = []) :
    notedEntries es = [] :=
  List.filter_eq_nil_iff.2 fun e he => by simp [Entry.hasNotes, h e he]

/-- Where nothing inside the entries of a row has notes, these alone count. -/
theorem notedEntries_of_inside {es : List Entry}
    (h : ∀ e ∈ es, ∀ x ∈ e.decl.inside, x.annotations = []) :
    notedEntries es = es.filter Entry.hasNotes := by
  induction es with
  | nil => rfl
  | cons e rest ih =>
    obtain ⟨he, hrest⟩ := List.forall_mem_cons.1 h
    have hinside : e.decl.inside.filter Entry.hasNotes = [] :=
      List.filter_eq_nil_iff.2 fun x hx => by simp [Entry.hasNotes, he x hx]
    have hall := ih hrest
    rw [notedEntries] at hall ⊢
    rw [everyEntry_cons, List.filter_cons, List.filter_append, hinside, hall, List.nil_append,
      List.filter_cons]

/-! ## Taking out

A declaration that was put in comes with its notes, which are on the entry itself or on members of
a new type. The rest are the entries of a module after its edits, where notes are on methods. -/

/-- Only methods have notes. -/
def OnlyMethodsNoted (es : List Entry) : Prop :=
  ∀ e ∈ notedEntries es, ∃ m, e.decl = .method m

theorem OnlyMethodsNoted.head {e : Entry} {rest : List Entry} (h : OnlyMethodsNoted (e :: rest)) :
    OnlyMethodsNoted [e] := by
  rw [OnlyMethodsNoted, notedEntries_cons] at h
  exact fun x hx => h x (List.mem_append_left _ hx)

theorem OnlyMethodsNoted.tail {e : Entry} {rest : List Entry} (h : OnlyMethodsNoted (e :: rest)) :
    OnlyMethodsNoted rest := by
  rw [OnlyMethodsNoted, notedEntries_cons] at h
  exact fun x hx => h x (List.mem_append_right _ hx)

/-- What is no method has no notes then. -/
theorem OnlyMethodsNoted.annotations_eq_nil {e : Entry} (h : OnlyMethodsNoted [e])
    (hmethod : ∀ m, e.decl ≠ .method m) : e.annotations = [] := by
  refine Decidable.byContradiction fun hnotes => ?_
  obtain ⟨m, hm⟩ := h e (mem_notedEntries_iff.2 ⟨mem_everyEntry_of_mem List.mem_cons_self, hnotes⟩)
  exact hmethod m hm

/-- **What is taken out has its notes**, and what is left has all the others, if what is left has
notes on methods only. -/
theorem notedEntries_takingOut {b : Text.LineBreak} {es taken rest : List Entry}
    (h : TakingOut b es taken rest) (honly : OnlyMethodsNoted rest) :
    (notedEntries es).Perm (notedEntries taken ++ notedEntries rest) := by
  -- On the way the list is built. What is inside a namespace or a type that stays is split first,
  -- and the two parts have to be brought past each other.
  induction h with
  | nil => exact .rfl
  | @out e es taken rest _ ih =>
    rw [notedEntries_cons e es, notedEntries_cons e taken, List.append_assoc]
    exact (ih honly).append_left _
  | @wrapped path run es taken rest _ _ ih =>
    rw [notedEntries_cons, newNamespace, notedEntries_scope, notedEntries_append run taken,
      List.append_assoc]
    exact (ih honly).append_left _
  | @keep e es taken rest _ ih =>
    rw [notedEntries_cons e es, notedEntries_cons e rest]
    exact ((ih honly.tail).append_left _).trans (List.perm_append_comm_assoc _ _ _)
  | @scope leading notes name form header trailing footer entries entries' inner es taken rest _ _
      ihInner ih =>
    obtain rfl : notes = [] := honly.head.annotations_eq_nil fun m => Decl.noConfusion
    have hentries : OnlyMethodsNoted entries' := by
      have hhead := honly.head
      rwa [OnlyMethodsNoted, notedEntries_scope] at hhead
    rw [notedEntries_cons, notedEntries_scope, notedEntries_cons _ rest, notedEntries_scope,
      notedEntries_append inner taken]
    refine ((ihInner hentries).append (ih honly.tail)).trans ?_
    rw [List.append_assoc, List.append_assoc]
    exact (List.perm_append_comm_assoc _ _ _).append_left _
  | @type leading notes name header trailing footer members members' inner es taken rest _ _
      ihInner ih =>
    obtain rfl : notes = [] := honly.head.annotations_eq_nil fun m => Decl.noConfusion
    have hmembers : OnlyMethodsNoted members' := by
      have hhead := honly.head
      rwa [OnlyMethodsNoted, notedEntries_type] at hhead
    rw [notedEntries_cons, notedEntries_type, notedEntries_cons _ rest, notedEntries_type,
      notedEntries_append inner taken]
    refine ((ihInner hmembers).append (ih honly.tail)).trans ?_
    rw [List.append_assoc, List.append_assoc]
    exact (List.perm_append_comm_assoc _ _ _).append_left _

/-! ## Editing -/

/-- The entries with notes in the bodies of types. -/
def notedInTypes (xs : List (Place × IndexedType)) : List Entry :=
  xs.flatMap fun x => notedEntries x.2.type.body.entries

/-- **Editing a row without notes** puts notes into the bodies of its types and nowhere else. -/
theorem notedEntries_editEntries (path : String) (position : Nat) {es : List Entry}
    {pending : List (String × TypeEdit)} (h : Keyed pending)
    (hbare : ∀ e ∈ everyEntry es, e.annotations = []) :
    notedEntries (editEntries path pending es).1
      = notedInTypes (editPlaced pending (placedUnder path position es)) := by
  induction es using row_induction generalizing path position pending with
  | nil => rfl
  | scope leading notes name form header entries trailing footer rest ihBody ihRest =>
    simp only [everyEntry, Decl.inside, List.mem_cons, List.mem_append, forall_eq_or_imp] at hbare
    obtain ⟨rfl, hinside⟩ := hbare
    -- The rest of the row gets the edits that found no type inside the namespace.
    have hleft := (placedUnder_editEntries (qualify path name) 0 entries h).2
    have hnames := map_qualified_placedUnder (qualify path name) 0 entries
    have hbody := ihBody (qualify path name) 0 h fun e he => hinside e (.inl he)
    have hrest := ihRest (form.pathAfter path (qualify path name)) (position + 1)
      (h.withoutAll ((typesUnder (qualify path name) entries).map IndexedType.qualified))
      fun e he => hinside e (.inr he)
    simp only [editEntries, editEntry, Entry.pathAfter, placedUnder, Entry.placed,
      editPlaced_append, editPlaced_map, List.map_map, Function.comp_def, hnames]
    rw [notedEntries_cons, notedEntries_scope, hbody, hleft, hrest]
    simp [notedInTypes, List.flatMap_append, List.flatMap_map]
  | type leading notes t rest ih =>
    simp only [everyEntry, List.mem_cons, List.mem_append, forall_eq_or_imp] at hbare
    obtain ⟨rfl, hinside⟩ := hbare
    have hrest := ih path (position + 1) (h.without (qualify path t.name))
      fun e he => hinside e (.inr he)
    simp only [editEntries, editEntry_type path leading [] t h, Entry.pathAfter]
    rw [notedEntries_cons, notedEntries_type, hrest]
    rfl
  | method leading notes m rest ih =>
    simp only [everyEntry, Decl.inside, List.mem_cons, List.nil_append, forall_eq_or_imp] at hbare
    obtain ⟨rfl, hrest⟩ := hbare
    exact ih path (position + 1) h hrest
  | verbatim leading notes text rest ih =>
    simp only [everyEntry, Decl.inside, List.mem_cons, List.nil_append, forall_eq_or_imp] at hbare
    obtain ⟨rfl, hrest⟩ := hbare
    exact ih path (position + 1) h hrest

/-- **Every edit comes to one type**: what is read off the types after the edits is what the edits
say, apart from those that found no type. -/
theorem flatMap_editPlaced_perm {β : Type} (ofType : IndexedType → List β)
    (ofEdit : TypeEdit → List β) {pending : List (String × TypeEdit)}
    {xs : List (Place × IndexedType)} (h : Keyed pending)
    (hempty : ∀ x ∈ xs, ofType x.2 = [])
    (hedit : ∀ x ∈ xs, ∀ pair ∈ pending, ofType (x.2.edited pair.2) = ofEdit pair.2) :
    ((editPlaced pending xs).flatMap (fun x => ofType x.2)
      ++ (withoutAll (xs.map (·.2.qualified)) pending).flatMap fun pair => ofEdit pair.2).Perm
        (pending.flatMap fun pair => ofEdit pair.2) := by
  induction xs generalizing pending with
  | nil => exact .rfl
  | cons x rest ih =>
    obtain ⟨hx, hrest⟩ := List.forall_mem_cons.1 hempty
    have hhead : ofType (x.2.edited ((valueOf? x.2.qualified pending).getD .empty))
        = ((valueOf? x.2.qualified pending).map ofEdit).getD [] := by
      cases hvalue : valueOf? x.2.qualified pending with
      | none => simpa using hx
      | some edit => exact hedit x List.mem_cons_self _ (mem_of_valueOf? hvalue)
    have hperm := ih (h.without x.2.qualified) hrest fun y hy pair hpair =>
      hedit y (List.mem_cons_of_mem _ hy) pair (List.mem_filter.1 hpair).1
    rw [editPlaced, List.flatMap_cons, hhead, List.append_assoc, List.map_cons]
    exact (hperm.append_left _).trans (flatMap_without_perm x.2.qualified ofEdit h)

end ModuleMerge
