import ModuleMerge.Proofs.Additions
import ModuleMerge.Proofs.PlainMerge
import ModuleMerge.Proofs.RoundTrip

/-!
# Keeping the first input

If the user keeps the first input wherever there is a choice, the merge only adds: without what it
adds, the merged module is the first input again. What it adds is what the ledger says that the
second input has and the first has not, one entry for each difference. If there is no such
difference, the merged text is the first input's.

To say that the first input is still there, it is not enough that its declarations are. They have to
be in their old order and untouched, with only additions between them. So the statement is that some
entries can be taken out of the merged module, at any depth, and that the first input is left. Where
a namespace was made for new types, it goes with them.

The additions have to be accounted for as well, or the statement would be true of a merge that puts
in anything it likes. They are matched with entries of the ledger, one for one and with the right
declaration of the second input each. For that the plan is followed through its items, while taking
out goes through the module, so the two lists agree up to order only.

Which items add something depends on the choices. If the first input is kept throughout, they are
those without a choice, and what is chosen for their ids makes no difference.

* `Resolver.added_resolve` says what a plan adds, item by item; this holds for all choices.
* `Resolver.KeepsFirst` says that the choice on an item is the first input, and
  `onlyAppends_resolve` that then no member of the first input is touched.
* `keepFirst_restores` is the main result.
-/

set_option autoImplicit false

namespace ModuleMerge

/-! ## What a plan adds

An edit collects what several items append to one type, so additions come in another order in the
plan than in the ledger. -/

theorem TypeEdit.fates_eq_nil {edit : TypeEdit} (h : ∀ position, edit.fate? position = none) :
    edit.fates = [] := by
  cases hfates : edit.fates with
  | nil => rfl
  | cons pair rest => simpa [fate?, hfates] using h pair.1

/-- The declaration of an item that the first input lacks. -/
def Item.newDeclaration? : Item → Option Entry
  | .type theirs => some theirs.entry
  | .method _ none second => some second.entry
  | .method _ (some _) _ => none

/-- All entries that a plan adds to a module. -/
def EditPlan.added (plan : EditPlan) : List Entry :=
  (plan.edits.flatMap fun pair => pair.2.appended) ++ plan.insertions.map Insertion.entry

namespace Resolver

variable (r : Resolver)

/-- The entry that an item adds. -/
def addition? : Item × Nat → Option Entry
  | (.type theirs, id) => some (theirs.entry.annotated (note r.tag id .addedFromSecond))
  | (.method _ partner second, id) => r.taken? ⟨id, partner, second⟩

/-- A step adds what its item adds. -/
theorem added_resolveItem {plan : EditPlan} (h : Keyed plan.edits) (x : Item × Nat) :
    (r.resolveItem plan x).added.Perm (plan.added ++ (r.addition? x).toList) := by
  obtain ⟨item, id⟩ := x
  cases item with
  | type theirs =>
    refine List.Perm.of_eq ?_
    simp [EditPlan.added, resolveItem, resolveType, addition?]
  | method theirs partner second =>
    let c : Contribution := ⟨id, partner, second⟩
    have hedits : (r.resolveItem plan (.method theirs partner second, id)).edits
        = setValue theirs.qualified (r.contribute (plan.edit theirs.qualified) c) plan.edits :=
      EditPlan.setPair_eq _ _ _
    have happended : (r.contribute (plan.edit theirs.qualified) c).appended
        = ((valueOf? theirs.qualified plan.edits).map TypeEdit.appended).getD []
          ++ (r.taken? c).toList := by
      rw [appended_contribute, EditPlan.edit_eq]
      cases valueOf? theirs.qualified plan.edits <;> rfl
    have hperm := flatMap_setValue_perm TypeEdit.appended h happended
    rw [EditPlan.added, hedits, EditPlan.added, List.append_assoc]
    refine (hperm.append_right _).trans ?_
    rw [List.append_assoc]
    exact List.perm_append_comm.append_left _

/-- **A plan adds what its items add**, each once. -/
theorem added_resolve (first second : Index) :
    (r.resolve (matchModules first second).1).added.Perm
      ((numberedItems first second).filterMap r.addition?) := by
  rw [resolve_matchModules]
  have step : ∀ (xs : List (Item × Nat)) (plan : EditPlan), Keyed plan.edits →
      (xs.foldl r.resolveItem plan).added.Perm (plan.added ++ xs.filterMap r.addition?) := by
    intro xs
    induction xs with
    | nil => exact fun plan _ => by simp
    | cons x rest ih =>
      intro plan h
      rw [List.foldl_cons, filterMap_cons_eq_append, ← List.append_assoc]
      exact (ih _ (r.keyed_resolveItem h x)).trans ((r.added_resolveItem h x).append_right _)
  exact step _ .empty keyed_nil

/-! ## Keeping the first input

A kept method gets no note either: the verdict leaves its entry out of the edit altogether. -/

/-- The choice on an item is the first input, if there is a choice on it. -/
def KeepsFirst : Item × Nat → Prop
  | (.method _ (some _) _, id) => r.resolutions.bind (·.get? id) = some .keepFirst
  | _ => True

/-- The verdict on two methods, if the choice is the first input. -/
theorem disposition_verdict_of_keepFirst {id : Nat}
    (h : r.resolutions.bind (·.get? id) = some .keepFirst) (ours theirs : Method) :
    (r.verdict id ours theirs).disposition = .keepFirst := by
  rw [verdict, decide, h]
  rfl

/-- An item of both inputs adds nothing then, and others add their declaration with a note. -/
theorem addition?_of_keepsFirst {item : Item} {id : Nat} (h : r.KeepsFirst (item, id)) :
    r.addition? (item, id)
      = item.newDeclaration?.map fun e => e.annotated (note r.tag id .addedFromSecond) := by
  match item, h with
  | .type theirs, _ => rfl
  | .method _ none second, _ => rfl
  | .method _ (some first) second, h =>
    simp [addition?, taken?, provenance?, r.disposition_verdict_of_keepFirst h,
      Disposition.provenance?, Item.newDeclaration?]

/-- No edit touches a member of the first input then. -/
theorem onlyAppends_resolve {first second : Index}
    (h : ∀ x ∈ numberedItems first second, r.KeepsFirst x) :
    OnlyAppends (r.resolve (matchModules first second).1).edits := by
  intro pair hpair
  refine TypeEdit.fates_eq_nil fun position => ?_
  rw [← EditPlan.edit_of_mem (r.keyed_edits_resolve first second) hpair, fate?_edit_resolve,
    List.findSome?_eq_none_iff]
  intro c hc
  obtain ⟨theirs, -, hitem⟩ := exists_item_of_mem_contributions (List.mem_reverse.1 hc)
  have hkeeps := h _ hitem
  rw [fateAt?]
  cases hpartner : c.partner with
  | none => rfl
  | some ours =>
    rw [hpartner] at hkeeps
    simp [r.disposition_verdict_of_keepFirst hkeeps, Disposition.fate?]

/-- An edit belongs to a type of the first input. -/
theorem appended_of_get?_eq_none {first second : Index} {name : String}
    (h : first.get? name = none) :
    ((r.resolve (matchModules first second).1).edit name).appended = [] := by
  rw [appended_edit_resolve, List.filterMap_eq_nil_iff]
  intro c hc
  obtain ⟨theirs, rfl, hitem⟩ := exists_item_of_mem_contributions hc
  obtain ⟨-, -, ours, hours, -⟩ := mem_numberedItems_method hitem
  exact absurd (hours.symm.trans h) (Option.some_ne_none ours)

end Resolver

/-! ## Additions and the ledger

Ids are what an entry of the ledger and an addition have in common. The note has it. -/

/-- There is a choice on what both inputs have. -/
theorem isChoosable_ofDifference (item : Item) (id : Nat) :
    (LedgerEntry.ofDifference id item.difference).isChoosable = item.newDeclaration?.isNone := by
  show item.difference.kind.isChoosable = item.newDeclaration?.isNone
  cases item with
  | type theirs => rfl
  | method theirs partner second =>
    rw [Item.isChoosable_difference_method]
    cases partner <;> rfl

/-- The declaration that the merge adds for a ledger entry: the one of the second input that the
entry is about, with a note. -/
def AddedFor (tag : String) (second : SourceModule) (e : LedgerEntry) (added : Entry) : Prop :=
  ∃ t ∈ (Index.ofModule second).types, t.qualified = e.location
    ∧ ((e.kind = .typeAdded ∧ added = t.entry.annotated (note tag e.id .addedFromSecond))
      ∨ (e.kind = .methodAdded ∧ ∃ m ∈ t.type.members, e.signature = some m.signature
        ∧ added = m.entry.annotated (note tag e.id .addedFromSecond)))

section

variable {tag : String} {choices : Resolutions} {first second : SourceModule}

/-- If the user keeps the first input in the ledger, it is kept item by item. -/
theorem keepsFirst_of_ledger
    (h : ∀ e ∈ (merge tag (some choices) first second).ledger.entries, e.isChoosable = true →
      choices.get? e.id = some .keepFirst) :
    ∀ x ∈ numberedItems (Index.ofModule first) (Index.ofModule second),
      Resolver.KeepsFirst ⟨tag, some choices⟩ x := by
  rintro ⟨item, id⟩ hx
  have hchoice : (LedgerEntry.ofDifference id item.difference).isChoosable = true →
      choices.get? id = some .keepFirst := h _ (mem_ledger_of_mem_numberedItems hx)
  rw [isChoosable_ofDifference] at hchoice
  cases item with
  | type theirs => trivial
  | method theirs partner second =>
    cases partner with
    | none => trivial
    | some first => exact hchoice rfl

/-- What the merge adds for an item is what the item's ledger entry is about. -/
theorem addedFor_of_addition? {item : Item} {id : Nat} {added : Entry} {r : Resolver}
    (hx : (item, id) ∈ numberedItems (Index.ofModule first) (Index.ofModule second))
    (hkeeps : r.KeepsFirst (item, id)) (hadded : r.addition? (item, id) = some added) :
    AddedFor r.tag second (LedgerEntry.ofDifference id item.difference) added := by
  rw [r.addition?_of_keepsFirst hkeeps] at hadded
  obtain ⟨e, he, rfl⟩ := Option.map_eq_some_iff.1 hadded
  match item, hx, he with
  | .type theirs, hx, he =>
    obtain rfl := Option.some.inj he
    exact ⟨theirs, (mem_numberedItems_type hx).1, rfl, .inl ⟨rfl, rfl⟩⟩
  | .method theirs none m, hx, he =>
    obtain rfl := Option.some.inj he
    obtain ⟨htheirs, hm, -⟩ := mem_numberedItems_method hx
    exact ⟨theirs, htheirs, rfl, .inr ⟨rfl, m, hm, rfl, rfl⟩⟩

/-- The ledger entries without a choice, each with what the merge adds for it. -/
theorem exists_pairs_of_additions {r : Resolver}
    (hkeeps : ∀ x ∈ numberedItems (Index.ofModule first) (Index.ofModule second), r.KeepsFirst x) :
    ∃ pairs : List (LedgerEntry × Entry),
      pairs.map Prod.fst
          = (matchModules (Index.ofModule first) (Index.ofModule second)).2.entries.filter
              (fun e => !e.isChoosable)
        ∧ pairs.map Prod.snd
          = (numberedItems (Index.ofModule first) (Index.ofModule second)).filterMap r.addition?
        ∧ ∀ pair ∈ pairs, AddedFor r.tag second pair.1 pair.2 := by
  refine ⟨(numberedItems (Index.ofModule first) (Index.ofModule second)).filterMap fun x =>
    (r.addition? x).map fun e => (LedgerEntry.ofDifference x.2 x.1.difference, e), ?_, ?_, ?_⟩
  -- Both lists come from the count of items, so the pairs are made there.
  · rw [entries_matchModules, List.map_filterMap]
    generalize numberedItems (Index.ofModule first) (Index.ofModule second) = xs at hkeeps
    induction xs with
    | nil => rfl
    | cons x rest ih =>
      have hrest := ih fun y hy => hkeeps y (List.mem_cons_of_mem _ hy)
      have hx := r.addition?_of_keepsFirst (hkeeps x List.mem_cons_self)
      rw [List.filterMap_cons, List.map_cons, List.filter_cons, isChoosable_ofDifference, hx]
      cases x.1.newDeclaration? with
      | none => exact hrest
      | some e => exact congrArg (_ :: ·) hrest
  · rw [List.map_filterMap]
    simp [Function.comp_def]
  · intro pair hpair
    obtain ⟨⟨item, id⟩, hx, hpair⟩ := List.mem_filterMap.1 hpair
    obtain ⟨added, hadded, rfl⟩ := Option.map_eq_some_iff.1 hpair
    exact addedFor_of_addition? hx (hkeeps _ hx) hadded

/-- What is left of the edits when the merged module is made has nothing to add. -/
theorem flatMap_appended_left (r : Resolver) (first second : SourceModule) :
    let plan := r.resolve (matchModules (Index.ofModule first) (Index.ofModule second)).1
    (editEntries "" plan.edits first.body.entries).2.flatMap (fun pair => pair.2.appended)
      = [] := by
  intro plan
  have hkeyed := r.keyed_edits_resolve (Index.ofModule first) (Index.ofModule second)
  rw [(placedUnder_editEntries "" 0 first.body.entries hkeyed).2, List.flatMap_eq_nil_iff]
  intro pair hpair
  obtain ⟨hmem, hother⟩ := mem_withoutAll_iff.1 hpair
  rw [← EditPlan.edit_of_mem hkeyed hmem]
  refine r.appended_of_get?_eq_none (List.find?_eq_none.2 fun t ht hname => ?_)
  exact hother (of_decide_eq_true hname ▸ List.mem_map_of_mem ht)

/-- What a merge adds that keeps the first input can be taken out of the merged module. -/
theorem exists_takingOut_merge
    (hkeeps : ∀ x ∈ numberedItems (Index.ofModule first) (Index.ofModule second),
      Resolver.KeepsFirst ⟨tag, some choices⟩ x) :
    ∃ entries taken, ∃ pairs : List (LedgerEntry × Entry),
      (merge tag (some choices) first second).result
          = { first with body := ⟨entries, first.body.trailing⟩ }
        ∧ TakingOut first.lineBreak entries taken first.body.entries
        ∧ taken.Perm (pairs.map Prod.snd)
        ∧ pairs.map Prod.fst
          = (merge tag (some choices) first second).ledger.entries.filter (fun e => !e.isChoosable)
        ∧ ∀ pair ∈ pairs, AddedFor tag second pair.1 pair.2 := by
  let r : Resolver := ⟨tag, some choices⟩
  let plan := (r.resolve (matchModules (Index.ofModule first) (Index.ofModule second)).1)
  obtain ⟨pairs, hledger, hadded, hfor⟩ := exists_pairs_of_additions hkeeps
  obtain ⟨taken, htaken, hperm⟩ := exists_takingOut_ending first
    (r.keyed_edits_resolve (Index.ofModule first) (Index.ofModule second))
    (r.onlyAppends_resolve hkeeps) plan.insertions first.body.entries
  rw [flatMap_appended_left r first second, List.append_nil] at hperm
  have hpairs : taken.Perm (pairs.map Prod.snd) := by
    rw [hadded]
    exact hperm.trans (r.added_resolve _ _)
  exact ⟨_, taken, pairs, rfl, htaken, hpairs, hledger, hfor⟩

end

/-! ## The merged module -/

/-- **Keeping the first input keeps it.** If the user chooses the first input wherever there is a
choice, the merged module is the first input with declarations put into it: those that the ledger
lists without a choice, each once, and namespaces around new types. Without such declarations it is
the first input, and its text is the first file's. -/
theorem keepFirst_restores (tag : String) (choices : Resolutions) (first second : SourceModule)
    (h : ∀ e ∈ (merge tag (some choices) first second).ledger.entries, e.isChoosable = true →
      choices.get? e.id = some .keepFirst) :
    let merged := merge tag (some choices) first second
    (∃ entries taken, ∃ pairs : List (LedgerEntry × Entry),
      merged.result = { first with body := ⟨entries, first.body.trailing⟩ }
        ∧ TakingOut first.lineBreak entries taken first.body.entries
        ∧ taken.Perm (pairs.map Prod.snd)
        ∧ pairs.map Prod.fst = merged.ledger.entries.filter (fun e => !e.isChoosable)
        ∧ ∀ pair ∈ pairs, AddedFor tag second pair.1 pair.2)
      ∧ ((∀ e ∈ merged.ledger.entries, e.isChoosable = true) →
        merged.result = first ∧ merged.result.render = first.render
          ∧ ∀ (s : Source) (tolerant : Bool), s.fits = true →
            s.read first.language tolerant = .ok first → merged.result.render = s.text) := by
  intro merged
  obtain ⟨entries, taken, pairs, hresult, htaken, hperm, hledger, hfor⟩ :=
    exists_takingOut_merge (keepsFirst_of_ledger h)
  refine ⟨⟨entries, taken, pairs, hresult, htaken, hperm, hledger, hfor⟩, fun hchoosable => ?_⟩
  -- Without additions nothing is taken out, so nothing was put in.
  have hnone : pairs = [] := by
    rw [← List.map_eq_nil_iff, hledger, List.filter_eq_nil_iff]
    exact fun e he => by simp [hchoosable e he]
  rw [hnone] at hperm
  have hsame : merged.result = first := by
    refine hresult.trans ?_
    rw [← htaken.eq_of_nothing (List.perm_nil.1 hperm)]
    obtain ⟨language, bom, crlf, ⟨entries, trailing⟩⟩ := first
    rfl
  refine ⟨hsame, congrArg SourceModule.render hsame, fun s tolerant hfits hread => ?_⟩
  rw [hsame]
  exact Source.render_of_read hfits hread

/-- A conflict and a duplicate are kept from the first input, and a new method is put in, whatever
is chosen for it. -/
theorem keepFirst_restores_sample :
    let first := sampleClass "T" [sampleMethod "F" "one", sampleMethod "G" ""]
    let second := sampleClass "T" [sampleMethod "F" "two", sampleMethod "H" "", sampleMethod "G" ""]
    let choices : Resolutions := ⟨[(1, .keepFirst), (2, .keepSecond), (3, .keepFirst)], by decide⟩
    let merged := merge "merge" (some choices) first second
    (∀ e ∈ merged.ledger.entries, e.isChoosable = true → choices.get? e.id = some .keepFirst)
      ∧ ∃ entries taken, ∃ pairs : List (LedgerEntry × Entry),
        merged.result = { first with body := ⟨entries, first.body.trailing⟩ }
          ∧ TakingOut first.lineBreak entries taken first.body.entries
          ∧ taken.Perm (pairs.map Prod.snd)
          ∧ pairs.map Prod.fst = merged.ledger.entries.filter (fun e => !e.isChoosable)
          ∧ ∀ pair ∈ pairs, AddedFor "merge" second pair.1 pair.2 := by
  intro first second choices merged
  have h : ∀ e ∈ merged.ledger.entries, e.isChoosable = true →
      choices.get? e.id = some .keepFirst := by decide +kernel
  exact ⟨h, (keepFirst_restores "merge" choices first second h).1⟩

end ModuleMerge
