import ModuleMerge.Proofs.Changes

/-!
# What a choice reaches

A user's choice is about one difference, and it is felt in the body of one type of the merged
module: that of the type that the difference is in. Nothing else may depend on it, neither another
type nor where new types go. So two passes over the same inputs are compared here with the bodies of
some types taken out, and what is left is one and the same module.

Taking bodies out is a way to say "equal elsewhere" without saying where elsewhere is. A statement
about each of the other types would leave out the text between them, and their order, and that no
type has been added. Equality of what is left has it all at once. The bodies are taken out of types
at places, not under names, as a name may stand for several types and only one of them is edited.

Two tables of choices are not compared by what they contain. A choice may be for an id that is not
in the ledger, or on a difference where nothing can be chosen, or for what would be done anyway. So
the comparison is of what is done in the end with each difference, and all these cases are seen to
be of no effect in the same way.

The proof goes along the passes. A type's edit depends on the differences in this type only, new
types depend on no choice, and composing makes changes place by place (`compose_eq`).

* `LedgerEntry.disposition?` is what is done with a difference under given choices, and `differing`
  are the differences on which two tables of choices do not agree.
* `SourceModule.emptied` is a module without the bodies of the types at some places.
* `emptied_compose` compares two plans that edit only these types in different ways.
* `merge_local` is the main result.
-/

set_option autoImplicit false

namespace ModuleMerge

/-! ## Differences under two tables -/

/-- What a strategy does with a difference, if a user may choose something else. -/
def Strategy.disposition? : Strategy → Option Disposition
  | keepBoth => some .keepBoth
  | deduplicate => some .deduplicate
  | append => none

/-- What is done with a difference on which there is a choice: what the user chose for its id, or
else its strategy. -/
def LedgerEntry.disposition? (choices : Option Resolutions) (e : LedgerEntry) :
    Option Disposition :=
  if e.isChoosable then
    ((choices.bind (·.get? e.id)).map Choice.disposition).or e.strategy.disposition?
  else none

/-- The differences of a ledger with which two tables of choices do different things. -/
def differing (choices choices' : Option Resolutions) (ledger : Ledger) : List LedgerEntry :=
  ledger.entries.filter fun e => e.disposition? choices ≠ e.disposition? choices'

/-- The verdict on two methods is what is done with their entry in the ledger. -/
theorem disposition?_ofDifference (r : Resolver) (theirs : IndexedType) (first second : Member)
    (id : Nat) :
    (LedgerEntry.ofDifference id
        (Item.method theirs (some first) second).difference).disposition? r.resolutions
      = some (r.verdict id first.method second.method).disposition := by
  have hchoosable := Item.isChoosable_difference_method theirs (some first) second
  simp only [LedgerEntry.disposition?, LedgerEntry.isChoosable, LedgerEntry.ofDifference,
    hchoosable, Option.isSome_some, if_true, Resolver.verdict, Resolver.decide]
  cases r.resolutions.bind (·.get? id) with
  | some choice => rfl
  | none =>
    simp only [Item.difference]
    split <;> rfl

/-! ## Modules without some bodies

Only types at the listed places are emptied. The header of such a type stays, and so does whatever
stands before it. -/

/-- A type without its body. -/
def TypeDecl.emptied (t : TypeDecl) : TypeDecl :=
  { t with body := ⟨[], ""⟩ }

mutual

/-- An entry without the bodies of the types at some places below it. -/
def Entry.emptied (hollow : Place → Bool) : Entry → Entry
  | ⟨leading, annotations, .scope ⟨name, form, header, ⟨entries, trailing⟩, footer⟩⟩ =>
    ⟨leading, annotations,
      .scope ⟨name, form, header, ⟨emptiedRow hollow 0 entries, trailing⟩, footer⟩⟩
  | ⟨leading, annotations, .type type⟩ =>
    ⟨leading, annotations, .type (if hollow [] then type.emptied else type)⟩
  | ⟨leading, annotations, .method method⟩ => ⟨leading, annotations, .method method⟩
  | ⟨leading, annotations, .verbatim text⟩ => ⟨leading, annotations, .verbatim text⟩

/-- A row of entries without the bodies of the types at some places, the first entry standing at
`position`. -/
def emptiedRow (hollow : Place → Bool) (position : Nat) : List Entry → List Entry
  | [] => []
  | e :: rest =>
    e.emptied (fun place => hollow (position :: place)) :: emptiedRow hollow (position + 1) rest

end

/-- A module without the bodies of the types at some places. -/
def SourceModule.emptied (m : SourceModule) (places : List Place) : SourceModule :=
  { m with body := ⟨emptiedRow (· ∈ places) 0 m.body.entries, m.body.trailing⟩ }

theorem emptiedRow_append (hollow : Place → Bool) (position : Nat) (xs ys : List Entry) :
    emptiedRow hollow position (xs ++ ys)
      = emptiedRow hollow position xs ++ emptiedRow hollow (position + xs.length) ys := by
  induction xs generalizing position with
  | nil => rfl
  | cons e rest ih => simp [emptiedRow, ih, Nat.add_assoc, Nat.add_comm 1]

/-- Without places nothing is taken out. -/
theorem emptiedRow_of_none {hollow : Place → Bool} (h : ∀ place, hollow place = false)
    (position : Nat) (es : List Entry) : emptiedRow hollow position es = es := by
  induction es using row_induction generalizing hollow position with
  | nil => rfl
  | scope leading notes name form header entries trailing footer rest ihBody ihRest =>
    have hbody : emptiedRow (fun place => hollow (position :: place)) 0 entries = entries :=
      ihBody (fun _ => h _) 0
    rw [emptiedRow, Entry.emptied, hbody, ihRest h]
  | type leading notes t rest ih =>
    rw [emptiedRow, Entry.emptied, h, ih h]
    rfl
  | method leading notes m rest ih => rw [emptiedRow, Entry.emptied, ih h]
  | verbatim leading notes text rest ih => rw [emptiedRow, Entry.emptied, ih h]

@[simp] theorem SourceModule.emptied_nil (m : SourceModule) : m.emptied [] = m := by
  obtain ⟨language, bom, crlf, ⟨entries, trailing⟩⟩ := m
  simp [emptied, emptiedRow_of_none]

/-! ## Two plans -/

@[simp] theorem length_changedRow (c : Changes) (position : Nat) (es : List Entry) :
    (changedRow c position es).length = es.length := by
  induction es generalizing position with
  | nil => rfl
  | cons e rest ih => simp [changedRow, ih]

/-- Changes that agree outside some types leave the same but for the bodies of these types. -/
theorem emptiedRow_changedRow {hollow : Place → Bool} {c c' : Changes}
    (hedit : ∀ place, hollow place = false →
      (c.edit? place).getD .empty = (c'.edit? place).getD .empty)
    (hrun : c.run? = c'.run?) (position : Nat) (es : List Entry) :
    emptiedRow hollow position (changedRow c position es)
      = emptiedRow hollow position (changedRow c' position es) := by
  induction es using row_induction generalizing hollow c c' position with
  | nil => rfl
  | scope leading notes name form header entries trailing footer rest ihBody ihRest =>
    have hbody : emptiedRow (fun place => hollow (position :: place)) 0
          (changedRow (c.under position) 0 entries)
        = emptiedRow (fun place => hollow (position :: place)) 0
          (changedRow (c'.under position) 0 entries) :=
      ihBody (fun place => hedit (position :: place)) (by simp only [Changes.under, hrun]) 0
    have hend : (c.under position).run? [] = (c'.under position).run? [] := by
      simp only [Changes.under, hrun]
    -- What is put at the end of the namespace stands at the same places in both.
    simp only [changedRow, Entry.changed, emptiedRow, Entry.emptied, emptiedRow_append, hbody,
      length_changedRow, hend, ihRest hedit hrun]
  | type leading notes t rest ih =>
    simp only [changedRow, Entry.changed, emptiedRow, Entry.emptied, ih hedit hrun]
    by_cases hhollow : hollow [position] = true
    · rw [if_pos hhollow, if_pos hhollow]
      rfl
    · rw [if_neg hhollow, if_neg hhollow]
      simp only [Changes.under, hedit _ (Bool.eq_false_iff.2 hhollow)]
  | method leading notes m rest ih =>
    simp only [changedRow, Entry.changed, emptiedRow, ih hedit hrun]
  | verbatim leading notes text rest ih =>
    simp only [changedRow, Entry.changed, emptiedRow, ih hedit hrun]

/-- What a plan does to the first type of a name. -/
theorem EditPlan.edit?_changes_of_firstOf? {m : SourceModule} (plan : EditPlan) {name : String}
    {place : Place} {t : IndexedType} (h : m.firstOf? name = some (place, t)) :
    ((plan.changes m).edit? place).getD .empty = plan.edit name := by
  have hvalue : (plan.changes m).edit? place = valueOf? name plan.edits := by
    apply Option.ext
    intro edit
    rw [edit?_changes]
    refine ⟨?_, fun hedit => ⟨name, t, h, hedit⟩⟩
    rintro ⟨name', t', h', hedit⟩
    -- One type stands at the place, and it has one name.
    have hat := SourceModule.typeAt?_of_mem (List.mem_of_find?_eq_some h)
    obtain rfl : t = t' := Option.some.inj
      (hat.symm.trans (SourceModule.typeAt?_of_mem (List.mem_of_find?_eq_some h')))
    have hname : t.qualified = name := by simpa using List.find?_some h
    have hname' : t.qualified = name' := by simpa using List.find?_some h'
    rw [← hname, hname']
    exact hedit
  rw [hvalue, edit_eq]

/-- What stands at a place is the first type of a name, and every plan edits it by this name, or
every plan leaves it. -/
theorem SourceModule.first_or_left (m : SourceModule) (place : Place) :
    (∃ name t, m.firstOf? name = some (place, t)
        ∧ ∀ plan : EditPlan, ((plan.changes m).edit? place).getD .empty = plan.edit name)
      ∨ ∀ plan : EditPlan, ((plan.changes m).edit? place).getD .empty = .empty := by
  by_cases hfirst : ∃ name t, m.firstOf? name = some (place, t)
  · obtain ⟨name, t, hfirst⟩ := hfirst
    exact .inl ⟨name, t, hfirst, fun plan => plan.edit?_changes_of_firstOf? hfirst⟩
  · refine .inr fun plan => ?_
    have hnone : (plan.changes m).edit? place = none := by
      rw [Option.eq_none_iff_forall_ne_some]
      intro edit hsome
      obtain ⟨name, t, hname, -⟩ := EditPlan.edit?_changes.1 hsome
      exact hfirst ⟨name, t, hname⟩
    rw [hnone, Option.getD_none]

/-- **Two plans that insert the same** and edit the same types in the same way, except for those at
some places, make the same module, except for the bodies of the types at these places. -/
theorem emptied_compose (m : SourceModule) {plan plan' : EditPlan} (hkeyed : Keyed plan.edits)
    (hkeyed' : Keyed plan'.edits) (hinsertions : plan.insertions = plan'.insertions)
    {places : List Place}
    (hedits : ∀ name place t, m.firstOf? name = some (place, t) → place ∉ places →
      plan.edit name = plan'.edit name) :
    (m.compose plan).emptied places = (m.compose plan').emptied places := by
  have hedit : ∀ place, decide (place ∈ places) = false →
      ((plan.changes m).edit? place).getD .empty = ((plan'.changes m).edit? place).getD .empty := by
    intro place hplace
    rcases m.first_or_left place with ⟨name, t, hfirst, hedited⟩ | hleft
    · rw [hedited, hedited]
      exact hedits name place t hfirst (of_decide_eq_false hplace)
    · rw [hleft, hleft]
  have hrun : (plan.changes m).run? = (plan'.changes m).run? := by
    simp only [EditPlan.changes, hinsertions]
  have hrow := emptiedRow_changedRow hedit hrun 0 m.body.entries
  rw [compose_eq m plan hkeyed, compose_eq m plan' hkeyed']
  simp only [SourceModule.emptied, emptiedRow_append, length_changedRow, hrow, hinsertions]

/-! ## Two resolvers

The resolvers have the same tag and other choices. What they do along the ledger is compared step by
step, so each lemma is about one step and the choices that it asks for. -/

/-- Steps that agree on the elements of a list run alike along it. -/
theorem foldl_congr {σ α : Type} {step step' : σ → α → σ} {xs : List α}
    (h : ∀ x ∈ xs, ∀ s, step s x = step' s x) (s : σ) : xs.foldl step s = xs.foldl step' s := by
  induction xs generalizing s with
  | nil => rfl
  | cons x rest ih =>
    rw [List.foldl_cons, List.foldl_cons, h x List.mem_cons_self]
    exact ih (fun y hy => h y (List.mem_cons_of_mem _ hy)) _

namespace Resolver

variable (r r' : Resolver)

/-- Of the choices, a contribution feels only what they do with its own difference. -/
theorem contribute_congr (htag : r.tag = r'.tag) (edit : TypeEdit) {c : Contribution}
    (h : ∀ first, c.partner = some first →
      (r.verdict c.id first.method c.second.method).disposition
        = (r'.verdict c.id first.method c.second.method).disposition) :
    r.contribute edit c = r'.contribute edit c := by
  cases hc : c.partner with
  | none => simp only [contribute, hc, pairing, resolveMember, htag]
  | some first =>
    rw [contribute, contribute, resolveMember_pairing r edit c hc,
      resolveMember_pairing r' edit c hc, apply, apply, h first hc, htag]
    simp only [verdict, id_decide]

/-- The edit of a type feels only what the choices do with the differences in this type. -/
theorem edit_resolve_congr (htag : r.tag = r'.tag) {first second : Index} {name : String}
    (h : ∀ e ∈ (matchModules first second).2.entries, e.location = name →
      e.disposition? r.resolutions = e.disposition? r'.resolutions) :
    (r.resolve (matchModules first second).1).edit name
      = (r'.resolve (matchModules first second).1).edit name := by
  have hsame : ∀ c ∈ contributions first second name, ∀ partner, c.partner = some partner →
      (r.verdict c.id partner.method c.second.method).disposition
        = (r'.verdict c.id partner.method c.second.method).disposition := by
    intro c hc partner hpartner
    obtain ⟨theirs, hname, hitem⟩ := exists_item_of_mem_contributions hc
    have hentry := mem_ledger_of_mem_numberedItems hitem
    have hdisposition := h _ hentry
      ((Item.location_difference_method theirs c.partner c.second).trans hname)
    rw [hpartner, disposition?_ofDifference, disposition?_ofDifference] at hdisposition
    exact Option.some.inj hdisposition
  rw [edit_resolve, edit_resolve]
  exact foldl_congr (fun c hc edit => contribute_congr r r' htag edit (hsame c hc)) .empty

/-- New types feel no choice. -/
theorem insertions_resolve_congr (htag : r.tag = r'.tag) (first second : Index) :
    (r.resolve (matchModules first second).1).insertions
      = (r'.resolve (matchModules first second).1).insertions := by
  have hinsertion : r.insertion? = r'.insertion? := by
    funext ⟨item, id⟩
    cases item with
    | type theirs => rw [insertion?, insertion?, htag]
    | method theirs partner second => rfl
  rw [insertions_resolve, insertions_resolve, hinsertion]

/-- Choices for ids that mean no difference, or one on which there is no choice, are not felt at
all. -/
theorem resolve_congr (htag : r.tag = r'.tag) {first second : Index}
    (h : ∀ e ∈ (matchModules first second).2.entries, e.isChoosable = true →
      r.resolutions.bind (·.get? e.id) = r'.resolutions.bind (·.get? e.id)) :
    r.resolve (matchModules first second).1 = r'.resolve (matchModules first second).1 := by
  have hitem : ∀ x ∈ numberedItems first second, ∀ plan,
      r.resolveItem plan x = r'.resolveItem plan x := by
    rintro ⟨item, id⟩ hx plan
    have hchoice : item.difference.kind.isChoosable = true →
        r.resolutions.bind (·.get? id) = r'.resolutions.bind (·.get? id) :=
      h _ (mem_ledger_of_mem_numberedItems hx)
    cases item with
    | type theirs => rw [resolveItem, resolveItem, resolveType, resolveType, htag]
    | method theirs partner second =>
      cases partner with
      | none => simp only [resolveItem, resolveType, resolveMembers, pairing, resolveMember, htag]
      | some first =>
        have hdecide : ∀ byDefault, r.decide id byDefault = r'.decide id byDefault := by
          intro byDefault
          rw [decide, decide,
            hchoice (Item.isChoosable_difference_method theirs (some first) second)]
        simp only [resolveItem, resolveType, resolveMembers, pairing]
        cases first.method.sameBody second.method <;>
          simp only [resolveMember, hdecide, apply, htag, if_true, if_false, Bool.false_eq_true]
  rw [resolve_matchModules, resolve_matchModules]
  exact foldl_congr hitem .empty

end Resolver

/-! ## The merge -/

section

variable {choices choices' : Option Resolutions} {first second : SourceModule}

/-- A difference on which there is a choice is in a type of the first input. -/
theorem exists_firstOf?_of_mem_differing {e : LedgerEntry}
    (he : e ∈ differing choices choices'
      (matchModules (Index.ofModule first) (Index.ofModule second)).2) :
    ∃ place ours, first.firstOf? e.location = some (place, ours) := by
  obtain ⟨he, hdiffers⟩ := List.mem_filter.1 he
  obtain ⟨item, hitem, hentry⟩ := exists_item_of_mem_ledger he
  cases item with
  | type theirs =>
    -- On a new type there is no choice, so nothing is done with it in two ways.
    have hnone : ∀ c, e.disposition? c = none := fun c => by rw [hentry]; rfl
    simp [hnone] at hdiffers
  | method theirs partner m =>
    have hlocation : e.location = theirs.qualified := by
      rw [hentry]
      exact Item.location_difference_method theirs partner m
    obtain ⟨-, -, ours, hours, -⟩ := mem_numberedItems_method hitem
    rw [get?_ofModule, ← hlocation] at hours
    obtain ⟨⟨place, t⟩, hfirst, -⟩ := Option.map_eq_some_iff.1 hours
    exact ⟨place, t, hfirst⟩

/-- The merged modules, without the bodies of the types with a difference that is treated in two
ways. -/
theorem emptied_merge (tag : String) (choices choices' : Option Resolutions)
    (first second : SourceModule) :
    let places := (differing choices choices'
      (matchModules (Index.ofModule first) (Index.ofModule second)).2).filterMap
        fun e => (first.firstOf? e.location).map Prod.fst
    (merge tag choices first second).result.emptied places
      = (merge tag choices' first second).result.emptied places := by
  intro places
  let r : Resolver := ⟨tag, choices⟩
  let r' : Resolver := ⟨tag, choices'⟩
  refine emptied_compose first (r.keyed_edits_resolve _ _) (r'.keyed_edits_resolve _ _)
    (r.insertions_resolve_congr r' rfl _ _) fun name place t hfirst hplace =>
      r.edit_resolve_congr r' rfl fun e he hname => ?_
  -- A difference in the type that is not treated alike would put the place on the list.
  refine Decidable.byContradiction fun hdiffers => hplace (List.mem_filterMap.2 ⟨e, ?_, ?_⟩)
  · exact List.mem_filter.2 ⟨he, decide_eq_true hdiffers⟩
  · rw [hname, hfirst]
    rfl

/-- Nothing is different if every choice is for what would be done anyway. -/
theorem result_merge_of_differing_eq_nil (tag : String)
    (h : differing choices choices'
      (matchModules (Index.ofModule first) (Index.ofModule second)).2 = []) :
    (merge tag choices first second).result = (merge tag choices' first second).result := by
  have hemptied := emptied_merge tag choices choices' first second
  simpa [h] using hemptied

/-- Nothing at all is different if the choices are the same wherever there is a choice. -/
theorem merge_congr (tag : String)
    (h : ∀ e ∈ (matchModules (Index.ofModule first) (Index.ofModule second)).2.entries,
      e.isChoosable = true → choices.bind (·.get? e.id) = choices'.bind (·.get? e.id)) :
    merge tag choices first second = merge tag choices' first second := by
  simp only [merge, Resolver.resolve_congr ⟨tag, choices⟩ ⟨tag, choices'⟩ rfl h]

/-- To keep both methods of a conflict is what is done anyway. -/
theorem disposition?_of_keepBoth {d : Difference} {id : Nat}
    (h : (LedgerEntry.ofDifference id d).isChoosable = true →
      choices.bind (·.get? id) = none
        ∨ d.kind = .methodConflict ∧ choices.bind (·.get? id) = some .keepBoth) :
    (LedgerEntry.ofDifference id d).disposition? choices
      = (LedgerEntry.ofDifference id d).disposition? none := by
  simp only [LedgerEntry.disposition?, Option.bind_none, Option.map_none, Option.none_or]
  split
  · rename_i hchoosable
    rcases h hchoosable with hnone | ⟨hkind, hboth⟩
    · simp [LedgerEntry.ofDifference, hnone]
    · simp [LedgerEntry.ofDifference, hkind, hboth, Choice.disposition, DifferenceKind.strategy,
        Strategy.disposition?]
  · rfl

end

/-- **A choice is felt in one type only.** Two passes over the same inputs find the same
differences. Where they do different things with some of them, the merged modules are one and the
same without the bodies of the types that these differences are in, and these are first types of
their names in the first input. So

* choices for ids that mean no difference, or one on which there is no choice, change nothing,
* an empty table of choices is as good as none,
* to keep both methods of conflicts, and to choose nothing else, gives the module that comes out
  without choices. -/
theorem merge_local (tag : String) (choices choices' : Option Resolutions)
    (first second : SourceModule) :
    let merged := merge tag choices first second
    let merged' := merge tag choices' first second
    let detected := merge tag none first second
    let changed := differing choices choices' merged.ledger
    let places := changed.filterMap fun e => (first.firstOf? e.location).map Prod.fst
    merged.ledger = merged'.ledger
      ∧ merged.result.emptied places = merged'.result.emptied places
      ∧ (∀ e ∈ changed, ∃ place ours, first.firstOf? e.location = some (place, ours)
        ∧ (∃ t, merged.result.typeAt? place = some t ∧ t.qualified = e.location)
        ∧ ∃ t, merged'.result.typeAt? place = some t ∧ t.qualified = e.location)
      ∧ (changed = [] → merged.result = merged'.result)
      ∧ ((∀ e ∈ merged.ledger.entries, e.isChoosable = true →
          choices.bind (·.get? e.id) = choices'.bind (·.get? e.id)) → merged = merged')
      ∧ merge tag (some .empty) first second = detected
      ∧ ((∀ e ∈ merged.ledger.entries, e.isChoosable = true →
          choices.bind (·.get? e.id) = none
            ∨ e.kind = .methodConflict ∧ choices.bind (·.get? e.id) = some .keepBoth) →
        merged.result = detected.result) := by
  intro merged merged' detected changed places
  have hledger : ∀ c, (merge tag c first second).ledger
      = (matchModules (Index.ofModule first) (Index.ofModule second)).2 := fun _ => rfl
  refine ⟨(hledger choices).trans (hledger choices').symm,
    emptied_merge tag choices choices' first second, fun e he => ?_,
    result_merge_of_differing_eq_nil tag, merge_congr tag, merge_congr tag fun _ _ _ => rfl,
    fun h => result_merge_of_differing_eq_nil tag (List.filter_eq_nil_iff.2 fun e he => ?_)⟩
  · obtain ⟨place, ours, hfirst⟩ := exists_firstOf?_of_mem_differing he
    have hname : ours.qualified = e.location := by simpa using List.find?_some hfirst
    have hat := fun c => SourceModule.typeAt?_of_mem
      (mem_placedTypes_merge_of_firstOf? tag c first second hfirst)
    exact ⟨place, ours, hfirst, ⟨_, hat choices, hname⟩, _, hat choices', hname⟩
  · obtain ⟨item, -, hentry⟩ := exists_item_of_mem_ledger he
    have hsame := h e he
    rw [hentry] at hsame ⊢
    simpa using disposition?_of_keepBoth hsame

/-- A resolve pass with an empty table of choices gives what the detect pass gives. -/
theorem MergeConfig.resolve_empty (config : MergeConfig) (first second : Source) :
    config.resolve first second .empty
      = (config.detect first second).map fun output => { output with pass := .resolve } := by
  have hmodules : ∀ m n, (config.runModules (some .empty) m n).output
      = { (config.runModules none m n).output with pass := .resolve } := by
    intro m n
    have hmerge : merge config.annotationTag (some .empty) m n
        = merge config.annotationTag none m n := merge_congr _ fun _ _ _ => rfl
    rw [runModules, hmerge]
    rfl
  rw [resolve, detect, run, run]
  cases config.readSide .first first with
  | error => rfl
  | ok m =>
    cases config.readSide .second second with
    | error => rfl
    | ok n => exact congrArg Except.ok (hmodules m n)

end ModuleMerge
