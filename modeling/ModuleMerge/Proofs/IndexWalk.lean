import ModuleMerge.Proofs.Frame

/-!
# The walk that edits and the index

Edits are made for what the index finds, and applied by a walk of its own through the module, which
never looks at the index. The walk has a path of its own as well, and a rule of its own for names
that come twice: it takes an edit out of its table the first time that the name comes up. If the two
ever disagreed on a name or on an order, an edit would go to another declaration or to none, and
nobody would be told.

They never do. Along the list of the index, the walk is a run of `Meeting`s, and what is said of it
here is said of that list.

* `meetings` is the run. `map_outcome_meetings` says that it makes of the types what the walk makes
  of them, and `asksUnder_eq` that the walk asks its table for the same names, in the same order and
  with the same answers.
* `taken_meetings_perm` says that every edit is taken once or left, and `find?_of_mem_meetings` that
  none is taken but by the first type of its name.
* `survivors_append` takes an edit apart at any entry of a body; the number that it has there is the
  number of entries before (`comesTo_member`).
* `compose_follows_index` is the main result.
-/

set_option autoImplicit false

namespace ModuleMerge

/-! ## Along the list of types -/

/-- A type that the walk comes to. -/
structure Meeting where
  place : Place
  type : IndexedType
  /-- The edit that is taken out of the table for it. -/
  edit? : Option TypeEdit

namespace Meeting

/-- What becomes of the type. -/
def outcome (x : Meeting) : Place × IndexedType :=
  (x.place, x.type.edited (x.edit?.getD .empty))

/-- The name that the table is asked for, and the answer. -/
def ask (x : Meeting) : String × Option TypeEdit :=
  (x.type.qualified, x.edit?)

/-- The pair that is taken out of the table. -/
def taken? (x : Meeting) : Option (String × TypeEdit) :=
  x.edit?.map fun edit => (x.type.qualified, edit)

end Meeting

/-- Types that are met one after the other with a table of edits in hand: each takes the edit of its
name, so that a later type of the name finds none. -/
def meetings (pending : List (String × TypeEdit)) : List (Place × IndexedType) → List Meeting
  | [] => []
  | x :: xs =>
    ⟨x.1, x.2, valueOf? x.2.qualified pending⟩ :: meetings (without x.2.qualified pending) xs

variable {pending : List (String × TypeEdit)} {xs : List (Place × IndexedType)}

theorem map_type_meetings (pending : List (String × TypeEdit)) (xs : List (Place × IndexedType)) :
    (meetings pending xs).map Meeting.type = xs.map Prod.snd := by
  induction xs generalizing pending with
  | nil => rfl
  | cons x rest ih => exact congrArg (x.2 :: ·) (ih _)

/-- The run makes of a list of types what the walk makes of it. -/
theorem map_outcome_meetings (pending : List (String × TypeEdit))
    (xs : List (Place × IndexedType)) :
    (meetings pending xs).map Meeting.outcome = editPlaced pending xs := by
  induction xs generalizing pending with
  | nil => rfl
  | cons x rest ih => exact congrArg (_ :: ·) (ih _)

/-- **Every edit is taken once, under its name, or it is left.** -/
theorem taken_meetings_perm (h : Keyed pending) (xs : List (Place × IndexedType)) :
    ((meetings pending xs).filterMap Meeting.taken?
      ++ withoutAll (xs.map (·.2.qualified)) pending).Perm pending := by
  induction xs generalizing pending with
  | nil => rfl
  | cons x rest ih =>
    have hrest := ih (h.without x.2.qualified)
    rw [meetings, List.filterMap_cons, List.map_cons]
    cases hvalue : valueOf? x.2.qualified pending with
    | none =>
      exact hrest.trans (.of_eq (without_of_not_mem (valueOf?_eq_none_iff.1 hvalue)))
    | some edit => exact (hrest.cons _).trans (perm_cons_without h hvalue).symm

/-- What a type takes was in the table under its name. -/
theorem mem_of_mem_meetings (h : Keyed pending) {x : Meeting} (hx : x ∈ meetings pending xs)
    {edit : TypeEdit} (hedit : x.edit? = some edit) : (x.type.qualified, edit) ∈ pending := by
  refine (taken_meetings_perm h xs).mem_iff.1 (List.mem_append_left _ ?_)
  exact List.mem_filterMap.2 ⟨x, hx, by rw [Meeting.taken?, hedit]; rfl⟩

/-- No type takes an edit but the first of its name. -/
theorem find?_of_mem_meetings (h : Keyed pending) {x : Meeting} (hx : x ∈ meetings pending xs)
    {edit : TypeEdit} (hedit : x.edit? = some edit) :
    xs.find? (·.2.qualified = x.type.qualified) = some (x.place, x.type) := by
  induction xs generalizing pending with
  | nil => exact absurd hx List.not_mem_nil
  | cons y rest ih =>
    rcases List.mem_cons.1 hx with rfl | hx
    · exact List.find?_cons_of_pos (decide_eq_true rfl)
    · have hname : y.2.qualified ≠ x.type.qualified := by
        -- The name of the type before is no longer in the table.
        intro hname
        have hmem := valueOf?_of_mem (h.without _) (mem_of_mem_meetings (h.without _) hx hedit)
        rw [valueOf?_without, if_pos hname.symm] at hmem
        contradiction
      rw [List.find?_cons_of_neg (by simpa using hname)]
      exact ih (h.without _) hx

/-! ## What the walk asks for -/

theorem meetings_append (pending : List (String × TypeEdit)) (xs ys : List (Place × IndexedType)) :
    meetings pending (xs ++ ys)
      = meetings pending xs ++ meetings (withoutAll (xs.map (·.2.qualified)) pending) ys := by
  induction xs generalizing pending with
  | nil => rfl
  | cons x rest ih => exact congrArg (_ :: ·) (ih _)

theorem map_ask_meetings_map (pending : List (String × TypeEdit)) (position : Nat)
    (xs : List (Place × IndexedType)) :
    (meetings pending (xs.map fun x => (position :: x.1, x.2))).map Meeting.ask
      = (meetings pending xs).map Meeting.ask := by
  induction xs generalizing pending with
  | nil => rfl
  | cons x rest ih => exact congrArg (_ :: ·) (ih _)

mutual

/-- What the walk asks its table for in one entry, in order, with the answers that it gets. -/
def Entry.asks (path : String) (pending : List (String × TypeEdit)) :
    Entry → List (String × Option TypeEdit)
  | ⟨_, _, .scope ⟨name, _, _, ⟨entries, _⟩, _⟩⟩ => asksUnder (qualify path name) pending entries
  | ⟨_, _, .type t⟩ =>
    [(qualify path t.name, (takePair? (qualify path t.name) pending).map Prod.fst)]
  | ⟨_, _, .method _⟩ => []
  | ⟨_, _, .verbatim _⟩ => []

/-- What the walk asks its table for in a row of entries: each entry is asked with the table that
the one before left. -/
def asksUnder (path : String) (pending : List (String × TypeEdit)) :
    List Entry → List (String × Option TypeEdit)
  | [] => []
  | e :: rest =>
    e.asks path pending ++ asksUnder (e.pathAfter path) (editEntry path pending e).2 rest

end

/-- **The walk asks for the names of the run**, in their order, and gets the same answers. -/
theorem asksUnder_eq (path : String) (position : Nat) (es : List Entry)
    {pending : List (String × TypeEdit)} (h : Keyed pending) :
    asksUnder path pending es
      = (meetings pending (placedUnder path position es)).map Meeting.ask := by
  -- Along a row the table is handed on, and the run goes on with what is left of it.
  have hcons : ∀ (path : String) (position : Nat) (e : Entry) (rest : List Entry)
      {pending : List (String × TypeEdit)}, Keyed pending →
      e.asks path pending = (meetings pending (e.placed path)).map Meeting.ask →
      asksUnder (e.pathAfter path) (editEntry path pending e).2 rest
        = (meetings (editEntry path pending e).2
            (placedUnder (e.pathAfter path) (position + 1) rest)).map Meeting.ask →
      asksUnder path pending (e :: rest)
        = (meetings pending (placedUnder path position (e :: rest))).map Meeting.ask := by
    intro path position e rest pending h he hrest
    have hnames : ((e.placed path).map fun x => (position :: x.1, x.2)).map (·.2.qualified)
        = (typesUnder path [e]).map IndexedType.qualified := by
      rw [← map_qualified_placedUnder path position [e], placedUnder, placedUnder, List.append_nil]
    rw [asksUnder, he, hrest, placedUnder, meetings_append, List.map_append, map_ask_meetings_map,
      hnames, left_editEntry path e h]
  induction es using row_induction generalizing path position pending with
  | nil => rfl
  | scope leading notes name form header entries trailing footer rest ihBody ihRest =>
    exact hcons path position _ rest h (ihBody _ 0 h) (ihRest _ _ (h.left_editEntry path _))
  | type leading notes t rest ih =>
    refine hcons path position _ rest h ?_ (ih _ _ (h.left_editEntry path _))
    rw [Entry.asks, takePair?_eq _ h, Option.map_map]
    cases hvalue : valueOf? (qualify path t.name) pending <;>
      simp [Entry.placed, meetings, Meeting.ask, IndexedType.qualified, hvalue]
  | method leading notes m rest ih =>
    exact hcons path position _ rest h rfl (ih _ _ (h.left_editEntry path _))
  | verbatim leading notes text rest ih =>
    exact hcons path position _ rest h rfl (ih _ _ (h.left_editEntry path _))

/-! ## Along the body of a type -/

/-- What an edit makes of two rows together: it goes on in the second with the number of entries in
the first and with the lines that are carried over. -/
theorem survivors_append (edit : TypeEdit) (position : Nat) (carried : String)
    (before after : List Entry) :
    edit.survivors position carried (before ++ after)
      = ((edit.survivors position carried before).1
          ++ (edit.survivors (position + before.length)
            (edit.survivors position carried before).2 after).1,
        (edit.survivors (position + before.length)
          (edit.survivors position carried before).2 after).2) := by
  induction before generalizing position carried with
  | nil => rfl
  | cons e rest ih =>
    have hlength : position + (e :: rest).length = position + 1 + rest.length := by
      rw [List.length_cons]
      omega
    rw [hlength, List.cons_append, TypeEdit.survivors, TypeEdit.survivors]
    split
    · exact ih ..
    · simp only [ih, List.cons_append]
    · simp only [ih, List.cons_append]

/-- On its way over a body an edit comes to an entry, and the fate that it looks up there is that of
a position. -/
def TypeEdit.ComesTo (edit : TypeEdit) (es : List Entry) (position : Nat) (e : Entry) : Prop :=
  ∃ before after, es = before ++ e :: after ∧ before.length = position
    ∧ edit.survivors 0 "" es
      = ((edit.survivors 0 "" before).1
          ++ (edit.survivors position (edit.survivors 0 "" before).2 (e :: after)).1,
        (edit.survivors position (edit.survivors 0 "" before).2 (e :: after)).2)

/-- An edit comes to every method with the position that the list of methods has for it. -/
theorem comesTo_member (edit : TypeEdit) {t : TypeDecl} {m : Member} (h : m ∈ t.members) :
    edit.ComesTo t.body.entries m.position m.entry := by
  obtain ⟨hlt, hentry⟩ := List.getElem?_eq_some_iff.1 (TypeDecl.mem_members_iff.1 h)
  have hbody : t.body.entries
      = t.body.entries.take m.position ++ m.entry :: t.body.entries.drop (m.position + 1) := by
    rw [← hentry, List.getElem_cons_drop, List.take_append_drop]
  have hlength : (t.body.entries.take m.position).length = m.position :=
    List.length_take_of_le (Nat.le_of_lt hlt)
  have happend := survivors_append edit 0 "" (t.body.entries.take m.position)
    (m.entry :: t.body.entries.drop (m.position + 1))
  rw [← hbody, hlength, Nat.zero_add] at happend
  exact ⟨_, _, hbody, hlength, happend⟩

/-! ## The walk and the index -/

/-- What it is for a plan to be applied along the index of a module, `met` being the types in the
order in which they are met. -/
structure EditPlan.FollowsIndex (plan : EditPlan) (m : SourceModule) (met : List Meeting) :
    Prop where
  /-- They are the types of the index, in its order and under its names. -/
  types : met.map Meeting.type = (Index.ofModule m).types
  /-- Their names are what the walk asks its table for, in this order and with these answers. -/
  asks : asksUnder "" plan.edits m.body.entries = met.map Meeting.ask
  /-- What the walk leaves of the module has these types, each after the edit that it took. -/
  walk : placedUnder "" 0 (editEntries "" plan.edits m.body.entries).1 = met.map Meeting.outcome
  /-- Every edit is taken once, under its name. -/
  once : (met.filterMap Meeting.taken?).Perm plan.edits
  /-- It is taken by the declaration that the index finds under the name. -/
  found : ∀ x ∈ met, x.edit?.isSome → m.firstOf? x.type.qualified = some (x.place, x.type)
    ∧ (Index.ofModule m).get? x.type.qualified = some x.type
  /-- No edit is left when the walk is over. -/
  nothingLeft : (editEntries "" plan.edits m.body.entries).2 = []
  /-- In the merged module, with its new types, everything is where the walk left it. -/
  standing : ∀ x ∈ met, (m.compose plan).typeAt? x.place = some x.outcome.2
  /-- When an edit is applied, the positions of the methods mean what they meant before. -/
  positions : ∀ x ∈ met, ∀ edit, x.edit? = some edit → ∀ member ∈ x.type.type.members,
    edit.ComesTo x.type.type.body.entries member.position member.entry

/-- **The walk follows the index.** If the names of all edits are in the index, the walk meets the
types of the index in their order, every edit goes once to the declaration that the index finds
under its name, and none is left over. -/
theorem compose_follows_index (m : SourceModule) (plan : EditPlan) (hkeys : Keyed plan.edits)
    (hknown : ∀ pair ∈ plan.edits, (Index.ofModule m).contains pair.1 = true) :
    plan.FollowsIndex m (meetings plan.edits m.placedTypes) := by
  obtain ⟨hplaced, hleft⟩ := placedUnder_editEntries "" 0 m.body.entries hkeys
  have hnames : m.placedTypes.map (·.2.qualified)
      = (Index.ofModule m).types.map IndexedType.qualified := map_qualified_placedUnder "" 0 _
  have hnone : withoutAll ((Index.ofModule m).types.map IndexedType.qualified) plan.edits = [] := by
    refine List.eq_nil_iff_forall_not_mem.2 fun pair hpair => ?_
    obtain ⟨hmem, hnot⟩ := mem_withoutAll_iff.1 hpair
    obtain ⟨t, ht, hname⟩ := List.any_eq_true.1 (hknown pair hmem)
    exact hnot (of_decide_eq_true hname ▸ List.mem_map_of_mem ht)
  have hfound : ∀ x ∈ meetings plan.edits m.placedTypes, x.edit?.isSome →
      m.firstOf? x.type.qualified = some (x.place, x.type) := by
    intro x hx hsome
    obtain ⟨edit, hedit⟩ := Option.isSome_iff_exists.1 hsome
    exact find?_of_mem_meetings hkeys hx hedit
  exact {
    types := by rw [map_type_meetings, types_ofModule]
    asks := asksUnder_eq "" 0 m.body.entries hkeys
    walk := by rw [map_outcome_meetings]; exact hplaced
    once := by
      have hperm := taken_meetings_perm hkeys m.placedTypes
      rwa [hnames, hnone, List.append_nil] at hperm
    found := fun x hx hsome => by
      refine ⟨hfound x hx hsome, ?_⟩
      rw [get?_ofModule, hfound x hx hsome]
      rfl
    nothingLeft := hleft.trans hnone
    standing := fun x hx => by
      refine SourceModule.typeAt?_of_mem (mem_placedTypes_compose m hkeys ?_)
      rw [← map_outcome_meetings]
      exact List.mem_map_of_mem hx
    positions := fun _ _ edit _ _ hmember => comesTo_member edit hmember }

/-- Behind a namespace in file form, a type is declared twice in a namespace and once outside. The
edits come in another order than the types. -/
theorem compose_follows_index_sample :
    let m : SourceModule := ⟨.csharp, false, false,
      ⟨[⟨"", [], .scope ⟨"App.Core", .file, "namespace App.Core;", ⟨[], ""⟩, ""⟩⟩,
        sampleNamespace "Log" [sampleBody "T" [⟨" ", [], .verbatim "int x;"⟩], sampleBody "T" []],
        sampleBody "T" []], "\n"⟩⟩
    let plan : EditPlan := ⟨[("App.Core.T", ⟨[], [sampleBody "U" []]⟩),
      ("App.Core.Log.T", ⟨[(0, .drop)], []⟩)], [], []⟩
    Keyed plan.edits
      ∧ (∀ pair ∈ plan.edits, (Index.ofModule m).contains pair.1 = true)
      ∧ plan.FollowsIndex m (meetings plan.edits m.placedTypes)
      ∧ (meetings plan.edits m.placedTypes).map (fun x => (x.place, x.edit?.isSome))
        = [([1, 0], true), ([1, 1], false), ([2], true)] := by
  intro m plan
  have hkeys : Keyed plan.edits := by simp [plan, Keyed]
  have hknown : ∀ pair ∈ plan.edits, (Index.ofModule m).contains pair.1 = true :=
    List.forall_mem_cons.2 ⟨by decide +kernel, List.forall_mem_singleton.2 (by decide +kernel)⟩
  exact ⟨hkeys, hknown, compose_follows_index m plan hkeys hknown, by decide +kernel⟩

end ModuleMerge
