import Mathlib.Data.List.Forall2
import ModuleMerge.Proofs.Completeness
import ModuleMerge.Proofs.Correspondence
import ModuleMerge.Proofs.PlainMerge

/-!
# Where the entries of a merged type come from

A decision is written in the log, and what came of it is seen in the body of a merged type. To hold
the one against the other it is not enough to look for a text in the body: the two methods that a
decision is about may have one and the same text. So every entry of a merged body is traced here to
the entry that it was made of, in one of the two inputs.

A trace of a body is two lists: positions of the first input's body, and ids of the ledger. Both are
in increasing order, so no entry of an input comes twice and their order is kept, and the entries of
the merged body are made of those one by one. Whether a method is in the merged body then is a
question about numbers, and equal texts can not be mistaken for each other.

For every type of both inputs there is such a trace, with no condition. The positions are those that
the edit does not drop, and the ids those of the contributions that are taken in. What a decision
says is held against these lists. For the second input's method that is direct, since each has a
contribution of its own. A method of the first input may be the partner of several, and the last of
them has its way. So for those the decision tells the truth if no two methods of the second input
have one signature, and else it may be overruled.

* `ComesFrom` says that an entry was made of one of the first input's at a position, or taken from
  the second input for the difference with an id.
* `Sources` traces a whole body, and `sources_merge` does so for every type of both inputs.
* `DecidedAs` says what the decision on a difference has to be.
* `decisions_merge` is the main result: the log has one decision for each difference on which there
  is a choice, and it tells the truth about the merged module.
-/

set_option autoImplicit false

namespace ModuleMerge

/-- A selection of a list against what the whole list gives, element by element. -/
theorem forall₂_filter_filterMap {α β : Type} {R : α → β → Prop} {p : α → Bool} {g : α → Option β}
    {xs : List α} (htrue : ∀ x ∈ xs, p x = true → ∃ y, g x = some y ∧ R x y)
    (hfalse : ∀ x ∈ xs, p x = false → g x = none) :
    List.Forall₂ R (xs.filter p) (xs.filterMap g) := by
  induction xs with
  | nil => exact .nil
  | cons x rest ih =>
    obtain ⟨hx, hrest⟩ := List.forall_mem_cons.1 htrue
    obtain ⟨hx', hrest'⟩ := List.forall_mem_cons.1 hfalse
    rw [List.filterMap_cons]
    cases hp : p x with
    | true =>
      obtain ⟨y, hy, hR⟩ := hx hp
      rw [List.filter_cons_of_pos hp, hy]
      exact .cons hR (ih hrest hrest')
    | false =>
      rw [List.filter_cons_of_neg (by simp [hp]), hx' hp]
      exact ih hrest hrest'

/-- In a list by increasing numbers a number means one element. -/
theorem eq_of_increasing {α : Type} {number : α → Nat} {xs : List α}
    (h : xs.Pairwise fun x y => number x < number y) {x y : α} (hx : x ∈ xs) (hy : y ∈ xs)
    (heq : number x = number y) : x = y := by
  have hnodup : (xs.map number).Nodup := List.pairwise_map.2 (h.imp Nat.ne_of_lt)
  have hmem : x ∈ xs.filter (number · = number y) :=
    List.mem_filter.2 ⟨hx, decide_eq_true heq⟩
  rw [filter_of_nodup hnodup hy] at hmem
  exact List.mem_singleton.1 hmem

/-! ## Paired methods

The plan of the matching has its pairs as constructors, and here they are seen as a record with an
id, a method of the second input and maybe one of the first. -/

namespace MemberMatch

/-- The method of the second input. -/
def second : MemberMatch → Member
  | .added _ second => second
  | .duplicate _ _ second => second
  | .conflict _ _ second => second

/-- The method of the first input that it is paired with. -/
def first? : MemberMatch → Option Member
  | .added .. => none
  | .duplicate _ first _ => some first
  | .conflict _ first _ => some first

/-- What kind of difference the two are. -/
def kind : MemberMatch → DifferenceKind
  | .added .. => .methodAdded
  | .duplicate .. => .methodDuplicate
  | .conflict .. => .methodConflict

/-- There is a choice where there are two methods. -/
theorem isChoosable_kind (matched : MemberMatch) :
    matched.kind.isChoosable = matched.first?.isSome := by
  cases matched <;> rfl

end MemberMatch

theorem pairing_fields (id : Nat) (partner : Option Member) (second : Member) :
    (pairing id partner second).id = id ∧ (pairing id partner second).first? = partner
      ∧ (pairing id partner second).second = second := by
  cases partner with
  | none => exact ⟨rfl, rfl, rfl⟩
  | some first =>
    rw [pairing]
    split <;> exact ⟨rfl, rfl, rfl⟩

/-- What a plan has for a contribution. -/
def Contribution.matched (c : Contribution) : MemberMatch :=
  pairing c.id c.partner c.second

section

variable (c : Contribution)

@[simp] theorem id_matched : c.matched.id = c.id :=
  (pairing_fields c.id c.partner c.second).1

@[simp] theorem first?_matched : c.matched.first? = c.partner :=
  (pairing_fields c.id c.partner c.second).2.1

@[simp] theorem second_matched : c.matched.second = c.second :=
  (pairing_fields c.id c.partner c.second).2.2

end

/-- The methods that a plan has for a name are the contributions to the name. -/
theorem mem_planned_iff {first second : Index} {name : String} {matched : MemberMatch} :
    .method name matched ∈ (matchModules first second).1.planned
      ↔ ∃ c ∈ contributions first second name, c.matched = matched := by
  rw [planned_matchModules, List.mem_map]
  constructor
  · rintro ⟨⟨item, id⟩, hitem, heq⟩
    cases item with
    | type theirs => contradiction
    | method theirs partner second' =>
      obtain ⟨rfl, rfl⟩ := PlannedItem.method.inj heq
      exact ⟨⟨id, partner, second'⟩,
        List.mem_filterMap.2 ⟨_, hitem, by simp [contributionTo]⟩, rfl⟩
  · rintro ⟨c, hc, rfl⟩
    obtain ⟨theirs, rfl, hitem⟩ := exists_item_of_mem_contributions hc
    exact ⟨_, hitem, rfl⟩

theorem pairwise_numberedItems (first second : Index) :
    (numberedItems first second).Pairwise fun x y => x.2 < y.2 := by
  rw [← List.pairwise_map, numberedItems, List.zipIdx_map_snd]
  exact List.pairwise_lt_range'

/-- The ids of contributions increase, as those of the items do. -/
theorem pairwise_contributions (first second : Index) (name : String) :
    (contributions first second name).Pairwise fun c c' => c.id < c'.id := by
  refine List.Pairwise.filterMap (contributionTo name) ?_ (pairwise_numberedItems first second)
  intro x y hlt c hc c' hc'
  obtain ⟨_, _, rfl⟩ := contributionTo_eq_some hc
  obtain ⟨_, _, rfl⟩ := contributionTo_eq_some hc'
  exact hlt

/-! ## The log

The log is made item by item, and so is the list of differences on which there is a choice. Both
leave out the same items, namely those without a partner. -/

/-- What the log has to say about a difference on which there is a choice. -/
inductive DecidedAs (choices : Option Resolutions) (e : LedgerEntry) : Decision → Prop
  /-- The user chose, and nothing else matters. -/
  | explicit {choice : Choice} :
      choices.bind (·.get? e.id) = some choice →
      DecidedAs choices e ⟨e.id, choice.disposition, .explicit⟩
  | conflict :
      choices.bind (·.get? e.id) = none → e.kind = .methodConflict →
      DecidedAs choices e ⟨e.id, .keepBoth, .byDefault⟩
  | duplicate :
      choices.bind (·.get? e.id) = none → e.kind = .methodDuplicate →
      DecidedAs choices e ⟨e.id, .deduplicate, .byDefault⟩

theorem DecidedAs.id_eq {choices : Option Resolutions} {e : LedgerEntry} {d : Decision}
    (h : DecidedAs choices e d) : e.id = d.id := by
  cases h <;> rfl

/-- The verdict on two methods is what the log has to say about their difference. -/
theorem decidedAs_verdict (r : Resolver) (theirs : IndexedType) (first second : Member) (id : Nat) :
    DecidedAs r.resolutions
      (.ofDifference id (Item.method theirs (some first) second).difference)
      (r.verdict id first.method second.method) := by
  rw [Resolver.verdict, Resolver.decide]
  cases hchoice : r.resolutions.bind (·.get? id) with
  | some choice => exact .explicit hchoice
  | none =>
    cases hsame : first.method.sameBody second.method with
    | true => exact .duplicate hchoice (by simp [LedgerEntry.ofDifference, Item.difference, hsame])
    | false => exact .conflict hchoice (by simp [LedgerEntry.ofDifference, Item.difference, hsame])

/-- **One decision for each difference on which there is a choice**, in the order of the ledger. -/
theorem forall₂_decisions (r : Resolver) (first second : Index) :
    List.Forall₂ (DecidedAs r.resolutions) (matchModules first second).2.choosable
      (r.resolve (matchModules first second).1).decisions := by
  rw [Ledger.choosable, entries_matchModules, List.filter_map, List.forall₂_map_left_iff,
    Resolver.decisions_resolve]
  refine forall₂_filter_filterMap ?_ ?_
  · rintro ⟨item, id⟩ - hchoosable
    cases item with
    | type theirs => exact absurd hchoosable Bool.false_ne_true
    | method theirs partner m =>
      have hpartner := (Item.isChoosable_difference_method theirs partner m).symm.trans hchoosable
      obtain ⟨n, rfl⟩ := Option.isSome_iff_exists.1 hpartner
      exact ⟨_, rfl, decidedAs_verdict r theirs n m id⟩
  · rintro ⟨item, id⟩ - hchoosable
    cases item with
    | type theirs => rfl
    | method theirs partner m =>
      have hpartner := (Item.isChoosable_difference_method theirs partner m).symm.trans hchoosable
      obtain rfl := Option.isNone_iff_eq_none.1 (Option.isSome_eq_false_iff.1 hpartner)
      rfl

/-- The log has the ids of the differences on which there is a choice. -/
theorem map_id_decisions (r : Resolver) (first second : Index) :
    (r.resolve (matchModules first second).1).decisions.map Decision.id
      = (matchModules first second).2.choosable.map LedgerEntry.id := by
  have h : List.Forall₂ (· = ·) ((matchModules first second).2.choosable.map LedgerEntry.id)
      ((r.resolve (matchModules first second).1).decisions.map Decision.id) := by
    rw [List.forall₂_map_left_iff, List.forall₂_map_right_iff]
    exact (forall₂_decisions r first second).imp fun _ _ hd => hd.id_eq
  rw [List.forall₂_eq_eq_eq] at h
  exact h.symm

/-- The ids of the log increase, so no id comes twice. -/
theorem pairwise_decisions (r : Resolver) (first second : Index) :
    (r.resolve (matchModules first second).1).decisions.Pairwise fun d d' => d.id < d'.id := by
  have hledger : ((matchModules first second).2.entries.map LedgerEntry.id).Pairwise (· < ·) := by
    rw [entries_matchModules, List.map_map, List.pairwise_map]
    exact pairwise_numberedItems first second
  rw [← List.pairwise_map, map_id_decisions]
  exact hledger.sublist (List.filter_sublist.map LedgerEntry.id)

/-! ## Sources

The relation between an entry and its source also says which decision is behind it. A note that both
methods are kept is there for a decision to keep both, and a method of the second input has the note
that belongs to its decision, or that it is new. -/

/-- Where an entry of a merged body comes from. -/
inductive EntrySource where
  /-- It stands at a position of the body in the first input. -/
  | first (position : Nat)
  /-- It was taken from the second input for the difference with an id. -/
  | second (id : Nat)

/-- What is noted on the second input's declaration of a difference, if it is taken: on a new one
that it is new, and otherwise what the decision says. -/
inductive NotedAs (decisions : List Decision) (id : Nat) (kind : DifferenceKind) :
    Option Provenance → Prop
  | added :
      kind.isChoosable = false → NotedAs decisions id kind (some .addedFromSecond)
  | decided {d : Decision} :
      kind.isChoosable = true → d ∈ decisions → d.id = id →
      NotedAs decisions id kind d.disposition.provenance?

/-- An entry of the merged body of a type, without the text before it, comes from somewhere in the
two inputs. `ours` is the body's type in the first input. -/
inductive ComesFrom (tag : String) (plan : MatchPlan) (decisions : List Decision) (name : String)
    (ours : TypeDecl) : EntrySource → Decl × List String → Prop
  /-- It is an entry of the first input as it was. -/
  | untouched {position : Nat} {e : Entry} :
      ours.body.entries[position]? = some e →
      ComesFrom tag plan decisions name ours (.first position) e.noted
  /-- It is a method of the first input, with a note since both methods are kept. -/
  | beside {matched : MemberMatch} {n : Member} {d : Decision} :
      .method name matched ∈ plan.planned → matched.first? = some n →
      ours.body.entries[n.position]? = some n.entry →
      d ∈ decisions → d.id = matched.id → d.disposition = .keepBoth →
      ComesFrom tag plan decisions name ours (.first n.position)
        (.method n.method, n.annotations ++ [note tag matched.id .fromFirst])
  /-- It is a method of the second input. -/
  | taken {matched : MemberMatch} {p : Provenance} :
      .method name matched ∈ plan.planned → NotedAs decisions matched.id matched.kind (some p) →
      ComesFrom tag plan decisions name ours (.second matched.id)
        (.method matched.second.method,
          matched.second.annotations ++ [note tag matched.id p])

/-- What a merged body is made of: entries of the first input from some positions, in their order,
then methods of the second input for some differences, in the order of the ledger. -/
structure Sources (tag : String) (plan : MatchPlan) (decisions : List Decision) (name : String)
    (ours : TypeDecl) (positions ids : List Nat) (body : List Entry) : Prop where
  kept_order : positions.Pairwise (· < ·)
  taken_order : ids.Pairwise (· < ·)
  entries : List.Forall₂ (ComesFrom tag plan decisions name ours)
    (positions.map EntrySource.first ++ ids.map EntrySource.second) (body.map Entry.noted)

/-- The positions of a body whose entries an edit keeps. -/
def TypeEdit.keptPositions (edit : TypeEdit) (t : TypeDecl) : List Nat :=
  (t.body.entries.zipIdx.filter fun x => edit.fate? x.2 ≠ some .drop).map Prod.snd

theorem TypeEdit.mem_keptPositions_iff {edit : TypeEdit} {t : TypeDecl} {position : Nat} :
    position ∈ edit.keptPositions t
      ↔ position < t.body.entries.length ∧ edit.fate? position ≠ some .drop := by
  simp only [keptPositions, List.mem_map, List.mem_filter, decide_eq_true_eq, Prod.exists,
    List.mk_mem_zipIdx_iff_getElem?]
  constructor
  · rintro ⟨e, _, ⟨he, hfate⟩, rfl⟩
    exact ⟨(List.getElem?_eq_some_iff.1 he).1, hfate⟩
  · rintro ⟨hlt, hfate⟩
    exact ⟨_, _, ⟨List.getElem?_eq_getElem hlt, hfate⟩, rfl⟩

theorem TypeEdit.pairwise_keptPositions (edit : TypeEdit) (t : TypeDecl) :
    (edit.keptPositions t).Pairwise (· < ·) := by
  have hpositions : (t.body.entries.zipIdx.map Prod.snd).Pairwise (· < ·) := by
    rw [List.zipIdx_map_snd]
    exact List.pairwise_lt_range'
  exact hpositions.sublist (List.filter_sublist.map Prod.snd)

namespace Resolver

variable (r : Resolver) (first second : Index) (name : String)

/-- The ids of the contributions to a name that are taken in. -/
def takenIds : List Nat :=
  ((contributions first second name).filter fun c => (r.provenance? c).isSome).map Contribution.id

theorem pairwise_takenIds : (r.takenIds first second name).Pairwise (· < ·) :=
  List.pairwise_map.2 ((pairwise_contributions first second name).sublist List.filter_sublist)

variable {first second : Index} {name : String}

/-- A contribution is among those that are taken in if it has something noted for it. No other has
its id. -/
theorem mem_takenIds_iff {c : Contribution} (hc : c ∈ contributions first second name) :
    c.id ∈ r.takenIds first second name ↔ (r.provenance? c).isSome = true := by
  rw [takenIds, List.mem_map]
  constructor
  · rintro ⟨c', hc', hid⟩
    obtain ⟨hc', htaken⟩ := List.mem_filter.1 hc'
    rwa [← eq_of_increasing (pairwise_contributions first second name) hc' hc hid]
  · exact fun htaken => ⟨c, List.mem_filter.2 ⟨hc, htaken⟩, rfl⟩

/-- A contribution is noted as its kind and the log say. -/
theorem notedAs_provenance? {c : Contribution} (hc : c ∈ contributions first second name) :
    NotedAs (r.resolve (matchModules first second).1).decisions c.id c.matched.kind
      (r.provenance? c) := by
  have hchoosable := c.matched.isChoosable_kind
  rw [first?_matched] at hchoosable
  rw [provenance?]
  cases hpartner : c.partner with
  | none => exact .added (by rw [hchoosable, hpartner]; rfl)
  | some n =>
    exact .decided (by rw [hchoosable, hpartner]; rfl)
      (r.verdict_mem_decisions first second name hc hpartner) (r.id_decide _ _)

/-- What a fate leaves of an entry comes from its position. The fate is what some contribution says
of the position, and the decision on that contribution is the one that is behind it. -/
theorem comesFrom_leave {ours : IndexedType} (hours : first.get? name = some ours)
    {position : Nat} {e : Entry} (he : ours.type.body.entries[position]? = some e)
    {noted : Decl × List String}
    (hleave : Fate.leave (((r.resolve (matchModules first second).1).edit name).fate? position)
      e.noted = some noted) :
    ComesFrom r.tag (matchModules first second).1
      (r.resolve (matchModules first second).1).decisions name ours.type (.first position)
      noted := by
  rw [fate?_edit_resolve] at hleave
  cases hfate : (contributions first second name).reverse.findSome? (r.fateAt? position) with
  | none =>
    rw [hfate] at hleave
    obtain rfl := Option.some.inj hleave
    exact .untouched he
  | some fate =>
    -- The fate is that of a contribution, and its partner is the method that stands there.
    obtain ⟨c, hc, hsays⟩ := List.exists_of_findSome?_eq_some hfate
    rw [List.mem_reverse] at hc
    obtain ⟨n, hpartner, rfl, hverdict⟩ := r.exists_partner_of_fateAt? hsays
    rw [hfate] at hleave
    have hmember := partner_of_mem_contributions hours hc
    have hplace := (TypeDecl.getElem?_of_member? (hmember.symm.trans hpartner)).1
    obtain rfl := Option.some.inj (he.symm.trans hplace)
    cases hd : (r.verdict c.id n.method c.second.method).disposition with
    | keepFirst => simp [hd, Disposition.fate?] at hverdict
    | keepBoth =>
      obtain rfl : Fate.annotate (note r.tag c.id .fromFirst) = fate := by
        simpa [hd, Disposition.fate?] using hverdict
      obtain rfl := Option.some.inj hleave
      rw [← id_matched c]
      exact .beside (mem_planned_iff.2 ⟨c, hc, rfl⟩) (by rw [first?_matched, hpartner]) hplace
        (r.verdict_mem_decisions first second name hc hpartner)
        ((r.id_decide _ _).trans (id_matched c).symm) hd
    | keepSecond | deduplicate =>
      obtain rfl : Fate.drop = fate := by simpa [hd, Disposition.fate?] using hverdict
      contradiction

/-- **What an edit makes of a type is traced to the two inputs.** -/
theorem sources_edit {ours : IndexedType} (hours : first.get? name = some ours) :
    let plan := (matchModules first second).1
    let edit := (r.resolve plan).edit name
    Sources r.tag plan (r.resolve plan).decisions name ours.type (edit.keptPositions ours.type)
      (r.takenIds first second name) (edit.applyTo ours.type).body.entries := by
  intro plan edit
  refine ⟨edit.pairwise_keptPositions ours.type, r.pairwise_takenIds first second name, ?_⟩
  rw [noted_applyTo, r.appended_edit_resolve, List.map_filterMap, TypeEdit.keptPositions, takenIds,
    List.map_map, List.map_map]
  -- What is kept, by positions, and what is appended, by contributions.
  refine List.rel_append ?_ ?_
  · rw [List.forall₂_map_left_iff]
    refine forall₂_filter_filterMap ?_ ?_
    · rintro ⟨e, position⟩ hx hkept
      have he := List.mk_mem_zipIdx_iff_getElem?.1 hx
      have hleave : ∃ noted, Fate.leave (edit.fate? position) e.noted = some noted := by
        cases hfate : edit.fate? position with
        | none => exact ⟨_, rfl⟩
        | some fate =>
          cases fate with
          | drop => simp [hfate] at hkept
          | annotate text => exact ⟨_, rfl⟩
      obtain ⟨noted, hleave⟩ := hleave
      exact ⟨noted, hleave, r.comesFrom_leave hours he hleave⟩
    · rintro ⟨e, position⟩ - hdropped
      have hfate : edit.fate? position = some .drop := by simpa using hdropped
      simp only [hfate, Fate.leave]
  · rw [List.forall₂_map_left_iff]
    refine forall₂_filter_filterMap (fun c hc htaken => ?_) fun c _ hout => ?_
    · obtain ⟨p, hp⟩ := Option.isSome_iff_exists.1 htaken
      have hnoted := r.notedAs_provenance? hc
      rw [hp, ← id_matched] at hnoted
      refine ⟨(.method c.second.method, c.second.annotations ++ [note r.tag c.id p]),
        by rw [taken?, hp]; rfl, ?_⟩
      rw [← second_matched, Function.comp_apply, ← id_matched]
      exact .taken (mem_planned_iff.2 ⟨c, hc, rfl⟩) hnoted
    · have hnone : r.provenance? c = none := by simpa using hout
      rw [taken?, hnone]
      rfl

/-! ## Decisions and bodies

A decision belongs to one contribution by its id. What is to be seen is whether the id, and the
position of the partner, are in the two lists. -/

/-- A method of the second input is taken unless the decision is for the first. -/
theorem mem_takenIds_iff_of_partner {c : Contribution} (hc : c ∈ contributions first second name)
    {n : Member} (hpartner : c.partner = some n) :
    c.id ∈ r.takenIds first second name
      ↔ (r.verdict c.id n.method c.second.method).disposition ≠ .keepFirst := by
  rw [r.mem_takenIds_iff hc, provenance?, hpartner]
  cases hd : (r.verdict c.id n.method c.second.method).disposition <;>
    simp [hd, Disposition.provenance?]

/-- Where no two contributions have one signature, each alone has a say on its partner. -/
theorem fate?_of_nodup {ours : IndexedType} (hours : first.get? name = some ours)
    (hdistinct : ((second.methodsOf name).map Member.signature).Nodup) {c : Contribution}
    (hc : c ∈ contributions first second name) {n : Member} (hpartner : c.partner = some n) :
    ((r.resolve (matchModules first second).1).edit name).fate? n.position
      = (r.verdict c.id n.method c.second.method).disposition.fate? r.tag c.id := by
  have hsignatures : ((contributions first second name).map (·.second.signature)).Nodup := by
    rwa [← map_second_contributions hours, List.map_map] at hdistinct
  have hmember := (partner_of_mem_contributions hours hc).symm.trans hpartner
  -- A contribution with another signature has another partner.
  have hother : ∀ c' ∈ contributions first second name, c'.second.signature ≠ c.second.signature →
      r.fateAt? n.position c' = none := by
    intro c' hc' hne
    refine r.fateAt?_eq_none fun n' hpartner' hposition => hne ?_
    have hmember' := (partner_of_mem_contributions hours hc').symm.trans hpartner'
    obtain rfl := TypeDecl.eq_of_position_eq (List.mem_of_find?_eq_some hmember')
      (List.mem_of_find?_eq_some hmember) hposition
    rw [← (TypeDecl.getElem?_of_member? hmember').2, (TypeDecl.getElem?_of_member? hmember).2]
  have hfind : (contributions first second name).find?
      (·.second.signature = c.second.signature) = some c := by
    rw [← List.head?_filter, filter_of_nodup hsignatures hc]
    rfl
  rw [fate?_edit_resolve, findSome?_reverse_of_nodup hsignatures hother, hfind, Option.bind_some,
    fateAt?, hpartner]
  exact if_pos rfl

/-- A method of the first input is kept if the decision is for it or for both. -/
theorem mem_keptPositions_iff_of_partner {ours : IndexedType} (hours : first.get? name = some ours)
    (hdistinct : ((second.methodsOf name).map Member.signature).Nodup) {c : Contribution}
    (hc : c ∈ contributions first second name) {n : Member} (hpartner : c.partner = some n) :
    n.position ∈ ((r.resolve (matchModules first second).1).edit name).keptPositions ours.type
      ↔ (r.verdict c.id n.method c.second.method).disposition = .keepFirst
        ∨ (r.verdict c.id n.method c.second.method).disposition = .keepBoth := by
  have hmember := (partner_of_mem_contributions hours hc).symm.trans hpartner
  have hlt : n.position < ours.type.body.entries.length :=
    (List.getElem?_eq_some_iff.1 (TypeDecl.getElem?_of_member? hmember).1).1
  rw [TypeEdit.mem_keptPositions_iff, r.fate?_of_nodup hours hdistinct hc hpartner]
  cases (r.verdict c.id n.method c.second.method).disposition <;>
    simp [Disposition.fate?, hlt]

/-- A decision is the verdict on a contribution. -/
theorem exists_contribution_of_mem_decisions {d : Decision}
    (hd : d ∈ (r.resolve (matchModules first second).1).decisions) :
    ∃ name ours c n, first.get? name = some ours ∧ c ∈ contributions first second name
      ∧ c.partner = some n ∧ d = r.verdict c.id n.method c.second.method
      ∧ ∃ e ∈ (matchModules first second).2.entries, e.id = c.id ∧ e.location = name := by
  rw [decisions_resolve] at hd
  obtain ⟨⟨item, id⟩, hitem, hdecision⟩ := List.mem_filterMap.1 hd
  match item, hitem, hdecision with
  | .method theirs (some n) m, hitem, hdecision =>
    obtain ⟨-, -, ours, hours, -⟩ := mem_numberedItems_method hitem
    refine ⟨theirs.qualified, ours, ⟨id, some n, m⟩, n, hours,
      List.mem_filterMap.2 ⟨_, hitem, by simp [contributionTo]⟩, rfl,
      (Option.some.inj hdecision).symm, _, mem_ledger_of_mem_numberedItems hitem, rfl, ?_⟩
    exact Item.location_difference_method theirs (some n) m

end Resolver

/-! ## The merge -/

/-- **Every type of both inputs is traced to them**, where the first input has it first. -/
theorem sources_merge (tag : String) (resolutions : Option Resolutions)
    (first second : SourceModule) {name : String} {place : Place} {ours : IndexedType}
    (hours : first.firstOf? name = some (place, ours)) :
    let merged := merge tag resolutions first second
    let edit := mergeEdit tag resolutions first second name
    Sources tag merged.plan merged.edits.decisions name ours.type (edit.keptPositions ours.type)
      (Resolver.takenIds ⟨tag, resolutions⟩ (Index.ofModule first) (Index.ofModule second) name)
      (edit.applyTo ours.type).body.entries := by
  have hget : (Index.ofModule first).get? name = some ours := by rw [get?_ofModule, hours]; rfl
  exact Resolver.sources_edit ⟨tag, resolutions⟩ hget

/-- **The log is exact.** It has one decision for each difference on which there is a choice, in the
order of the ledger: the user's choice, or else the default of the kind. And it tells the truth.
Each decision is about a method of the first input and one of the second, and the merged type that
they belong to is made of entries of the two inputs so that the second input's method is among
these unless the decision is to keep the first; and if no two methods that the second input
declares for the type share a signature, the first input's method is among them exactly if the
decision is to keep the first or both. -/
theorem decisions_merge (tag : String) (resolutions : Option Resolutions)
    (first second : SourceModule) :
    let merged := merge tag resolutions first second
    let log := merged.edits.decisions
    List.Forall₂ (DecidedAs resolutions) merged.ledger.choosable log
      ∧ log.Pairwise (fun d d' => d.id < d'.id)
      ∧ ∀ d ∈ log, ∃ e ∈ merged.ledger.entries, e.id = d.id
        ∧ ∃ matched n, .method e.location matched ∈ merged.plan.planned
          ∧ matched.id = d.id ∧ matched.first? = some n
        ∧ ∃ place ours t positions ids, first.firstOf? e.location = some (place, ours)
          ∧ ours.type.body.entries[n.position]? = some n.entry
          ∧ merged.result.typeAt? place = some t ∧ t.qualified = e.location
          ∧ Sources tag merged.plan log e.location ours.type positions ids t.type.body.entries
          ∧ (d.id ∈ ids ↔ d.disposition ≠ .keepFirst)
          ∧ ((((Index.ofModule second).methodsOf e.location).map Member.signature).Nodup →
            (n.position ∈ positions ↔ d.disposition = .keepFirst ∨ d.disposition = .keepBoth)) := by
  intro merged log
  let r : Resolver := ⟨tag, resolutions⟩
  refine ⟨forall₂_decisions r (.ofModule first) (.ofModule second),
    pairwise_decisions r (.ofModule first) (.ofModule second), fun d hd => ?_⟩
  obtain ⟨name, ours, c, n, hours, hc, hpartner, rfl, e, he, hid, rfl⟩ :=
    r.exists_contribution_of_mem_decisions hd
  obtain ⟨⟨place, ours⟩, hfirst, rfl⟩ : ∃ x, first.firstOf? e.location = some x ∧ x.2 = ours := by
    rwa [get?_ofModule, Option.map_eq_some_iff] at hours
  have hname : ours.qualified = e.location := by simpa using List.find?_some hfirst
  have hmember := (partner_of_mem_contributions hours hc).symm.trans hpartner
  have hdecided : (r.verdict c.id n.method c.second.method).id = c.id := r.id_decide _ _
  refine ⟨e, he, hid.trans hdecided.symm, c.matched, n, mem_planned_iff.2 ⟨c, hc, rfl⟩,
    (id_matched c).trans hdecided.symm, by rw [first?_matched, hpartner], place, ours,
    ours.edited (mergeEdit tag resolutions first second e.location), _, _, hfirst,
    (TypeDecl.getElem?_of_member? hmember).1,
    SourceModule.typeAt?_of_mem (mem_placedTypes_merge_of_firstOf? _ _ _ _ hfirst), hname,
    sources_merge tag resolutions first second hfirst, ?_, fun hdistinct => ?_⟩
  · rw [hdecided]
    exact r.mem_takenIds_iff_of_partner hc hpartner
  · exact r.mem_keptPositions_iff_of_partner hours hdistinct hc hpartner

/-- Of two methods with choices on them the first is kept and the second left out; a third has no
choice, and both are kept. -/
theorem decisions_merge_sample :
    let first := sampleClass "T" [sampleMethod "F" "one", sampleMethod "G" "", sampleMethod "H" "1"]
    let second := sampleClass "T" [sampleMethod "H" "2", sampleMethod "F" "two",
      sampleMethod "G" ""]
    let choices : Resolutions := ⟨[(2, .keepFirst), (3, .keepSecond)], by decide⟩
    let merged := merge "merge" (some choices) first second
    let log := merged.edits.decisions
    (((Index.ofModule second).methodsOf "T").map Member.signature).Nodup
      ∧ log = [⟨1, .keepBoth, .byDefault⟩, ⟨2, .keepFirst, .explicit⟩,
        ⟨3, .keepSecond, .explicit⟩]
      ∧ List.Forall₂ (DecidedAs (some choices)) merged.ledger.choosable log
      ∧ ∃ place ours t positions ids, first.firstOf? "T" = some (place, ours)
        ∧ merged.result.typeAt? place = some t
        ∧ Sources "merge" merged.plan log "T" ours.type positions ids t.type.body.entries
        ∧ 2 ∉ ids
        ∧ ∃ n : Member, ours.type.body.entries[n.position]? = some n.entry
          ∧ n.position ∈ positions := by
  intro first second choices merged log
  obtain ⟨hlog, -, htruth⟩ := decisions_merge "merge" (some choices) first second
  have hdecided : (⟨2, .keepFirst, .explicit⟩ : Decision) ∈ log := by decide +kernel
  have hdistinct : (((Index.ofModule second).methodsOf "T").map Member.signature).Nodup := by
    decide +kernel
  have hlocation : ∀ e ∈ merged.ledger.entries, e.location = "T" := by decide +kernel
  obtain ⟨e, he, -, -, n, -, -, -, place, ours, t, positions, ids, hfirst, hplace, ht, -, hsources,
    hids, hpositions⟩ := htruth _ hdecided
  rw [hlocation e he] at hfirst hsources hpositions
  exact ⟨hdistinct, by decide +kernel, hlog, place, ours, t, positions, ids, hfirst, ht, hsources,
    fun hmem => hids.1 hmem rfl, n, hplace, (hpositions hdistinct).2 (.inl rfl)⟩

end ModuleMerge
