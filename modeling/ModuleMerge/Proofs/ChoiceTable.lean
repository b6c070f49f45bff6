import Mathlib.Data.List.FinRange
import Mathlib.Data.List.Induction
import Mathlib.Data.List.Sort
import Mathlib.Logic.Equiv.Basic
import ModuleMerge.Resolution.Choice
import ModuleMerge.Proofs.Table

/-!
# Tables of choices and their records

A table of choices has one word to say on each id, so of all records with an id only the last one is
felt. Records of different ids have nothing to do with each other: a list may be put in any order
that keeps the records of each id in theirs. A word that means no choice is a choice all the same,
to keep both, and it takes the place of a better one before it.

A table is made by putting records in one after another, each at its place among increasing ids. To
show that two lists of records make the same table, one could follow how the pairs are moved. It is
easier not to look at the pairs at all: with increasing ids there is one list of pairs for given
answers, so it is enough to compare what the two tables answer.

What it is to have another order is said without a table, too. The places of one list are sent to
those of the other, one for one, and where two records have one id, the earlier stays the earlier.

* `Resolutions.ext_get?` says that a table is what it answers, and `Resolutions.get?_ofRecords` that
  a table answers with the last record of an id.
* `Reordered` is a change of order that keeps the records of each id in theirs.
* `Resolutions.filter_toRecords` says that a table is written with one record for each id.
* `Resolutions.last_record_counts` is the main result.
-/

set_option autoImplicit false

namespace ModuleMerge

/-! ## Lists in another order -/

/-- Elements that keep their order among themselves are the same list when they are picked out, in
whatever way the others are moved between them. -/
theorem filter_eq_of_positions {α : Type} {a b : List α} {p : α → Bool}
    (place : Fin a.length ≃ Fin b.length) (hsame : ∀ i, b.get (place i) = a.get i)
    (horder : ∀ i j, i < j → p (a.get i) → p (a.get j) → place i < place j) :
    a.filter p = b.filter p := by
  -- The places of what is picked out, in one list and in the other.
  have hpicked : ∀ c : List α,
      c.filter p = ((List.finRange c.length).filter fun i => p (c.get i)).map c.get := by
    intro c
    conv_lhs => rw [← List.map_get_finRange c, List.filter_map]
    rfl
  have hplaces : ((List.finRange a.length).filter fun i => p (a.get i)).map place
      = (List.finRange b.length).filter fun i => p (b.get i) := by
    refine List.Pairwise.eq_of_mem_iff (r := (· < ·)) (List.pairwise_map.2 ?_)
      ((List.pairwise_lt_finRange _).filter _) fun j => ?_
    · refine ((List.pairwise_lt_finRange a.length).filter _).imp_of_mem fun hi hj hlt => ?_
      exact horder _ _ hlt (List.mem_filter.1 hi).2 (List.mem_filter.1 hj).2
    · simp only [List.mem_map, List.mem_filter, List.mem_finRange, true_and]
      constructor
      · rintro ⟨i, hi, rfl⟩
        rwa [hsame]
      · intro hj
        refine ⟨place.symm j, ?_, place.apply_symm_apply j⟩
        rwa [← hsame, place.apply_symm_apply]
  rw [hpicked a, hpicked b, ← hplaces, List.map_map]
  exact List.map_congr_left fun i _ => (hsame i).symm

/-- The records of a list in another order, in which those with one id come as before. -/
def Reordered (a b : List ResolutionRecord) : Prop :=
  ∃ place : Fin a.length ≃ Fin b.length,
    (∀ i, b.get (place i) = a.get i)
      ∧ ∀ i j, i < j → (a.get i).id = (a.get j).id → place i < place j

/-- So the records of one id are the same list, before and after. -/
theorem Reordered.filter_eq {a b : List ResolutionRecord} (h : Reordered a b) (id : Nat) :
    a.filter (·.id = id) = b.filter (·.id = id) := by
  obtain ⟨place, hsame, horder⟩ := h
  refine filter_eq_of_positions place hsame fun i j hlt hi hj => horder i j hlt ?_
  exact (of_decide_eq_true hi).trans (of_decide_eq_true hj).symm

/-- The last record with an id. -/
def lastFor? (id : Nat) (records : List ResolutionRecord) : Option ResolutionRecord :=
  (records.filter (·.id = id)).getLast?

theorem lastFor?_append (id : Nat) (a b : List ResolutionRecord) :
    lastFor? id (a ++ b) = (lastFor? id b).or (lastFor? id a) := by
  rw [lastFor?, List.filter_append, List.getLast?_append]
  rfl

theorem lastFor?_singleton (id : Nat) (record : ResolutionRecord) :
    lastFor? id [record] = if record.id = id then some record else none := by
  by_cases h : record.id = id <;> simp [lastFor?, h]

namespace Resolutions

/-! ## What a table answers -/

theorem keyed_choices (r : Resolutions) : Keyed r.choices :=
  List.pairwise_map.2 (r.increasing.imp fun hlt => Nat.ne_of_lt hlt)

theorem get?_eq_some_iff {r : Resolutions} {id : Nat} {choice : Choice} :
    r.get? id = some choice ↔ (id, choice) ∈ r.choices :=
  ⟨mem_of_valueOf?, valueOf?_of_mem r.keyed_choices⟩

/-- Tables with the same answers are the same. -/
theorem ext_get? {r s : Resolutions} (h : ∀ id, r.get? id = s.get? id) : r = s := by
  have : Std.Asymm fun a b : Nat × Choice => a.1 < b.1 := ⟨fun _ _ hlt => Nat.lt_asymm hlt⟩
  have hchoices : r.choices = s.choices := by
    refine r.increasing.eq_of_mem_iff s.increasing fun pair => ?_
    rw [← get?_eq_some_iff, h, get?_eq_some_iff]
  obtain ⟨choices, _⟩ := r
  obtain ⟨choices', _⟩ := s
  congr

/-- What was put last for an id counts. -/
theorem get?_insert (r : Resolutions) (id : Nat) (choice : Choice) (other : Nat) :
    (r.insert id choice).get? other = if id = other then some choice else r.get? other := by
  have hpairs : ∀ pairs : List (Nat × Choice),
      valueOf? other (insertPair id choice pairs)
        = if id = other then some choice else valueOf? other pairs := by
    intro pairs
    induction pairs with
    | nil => rw [insertPair, valueOf?_cons]
    | cons pair rest ih =>
      rw [insertPair]
      by_cases hbefore : id < pair.1
      · rw [if_pos hbefore, valueOf?_cons]
      · by_cases hover : id = pair.1
        · rw [if_neg hbefore, if_pos hover, valueOf?_cons, valueOf?_cons, ← hover]
          by_cases h : id = other <;> simp [h]
        · rw [if_neg hbefore, if_neg hover, valueOf?_cons, valueOf?_cons, ih]
          by_cases hpair : pair.1 = other
          · have h : id ≠ other := fun h => hover (h.trans hpair.symm)
            simp [hpair, h]
          · simp [hpair]
  exact hpairs r.choices

theorem ofRecords_concat (records : List ResolutionRecord) (record : ResolutionRecord) :
    ofRecords (records ++ [record])
      = (ofRecords records).insert record.id (Choice.ofWord record.choice) :=
  List.foldl_concat ..

/-- **The last record of an id is what a table answers with.** -/
theorem get?_ofRecords (records : List ResolutionRecord) (id : Nat) :
    (ofRecords records).get? id
      = (lastFor? id records).map fun record => Choice.ofWord record.choice := by
  induction records using List.reverseRecOn with
  | nil => rfl
  | append_singleton records record ih =>
    rw [ofRecords_concat, get?_insert, ih, lastFor?_append, lastFor?_singleton]
    by_cases h : record.id = id <;> simp [h]

theorem get?_ofRecords_append (a b : List ResolutionRecord) (id : Nat) :
    (ofRecords (a ++ b)).get? id
      = ((lastFor? id b).map fun record => Choice.ofWord record.choice).or
        ((ofRecords a).get? id) := by
  rw [get?_ofRecords, get?_ofRecords, lastFor?_append, Option.map_or]

/-- Only the order within each id matters. -/
theorem ofRecords_eq_of_reordered {a b : List ResolutionRecord} (h : Reordered a b) :
    ofRecords a = ofRecords b := by
  refine ext_get? fun id => ?_
  rw [get?_ofRecords, get?_ofRecords, lastFor?, lastFor?, h.filter_eq id]

/-! ## A table as records -/

theorem pairwise_toRecords (r : Resolutions) : r.toRecords.Pairwise (·.id < ·.id) :=
  List.pairwise_map.2 r.increasing

/-- A table is written with one record for each id that it has a choice for. -/
theorem filter_toRecords (r : Resolutions) (id : Nat) :
    r.toRecords.filter (·.id = id)
      = ((r.get? id).map fun choice => ⟨id, choice.name⟩).toList := by
  have hpairs : r.toRecords.filter (·.id = id)
      = (r.choices.filter (·.1 = id)).map fun pair => ⟨pair.1, pair.2.name⟩ :=
    List.filter_map
  rw [hpairs]
  cases hchoice : r.get? id with
  | some choice => rw [filter_of_nodup r.keyed_choices (get?_eq_some_iff.1 hchoice)]; rfl
  | none =>
    have hnone : r.choices.filter (·.1 = id) = [] := by
      refine List.filter_eq_nil_iff.2 fun pair hpair hid => ?_
      exact valueOf?_eq_none_iff.1 hchoice (of_decide_eq_true hid ▸ List.mem_map_of_mem hpair)
    rw [hnone]
    rfl

/-- The records of a table make the table. -/
theorem ofRecords_toRecords (r : Resolutions) : ofRecords r.toRecords = r := by
  refine ext_get? fun id => ?_
  rw [get?_ofRecords, lastFor?, filter_toRecords]
  cases r.get? id with
  | none => rfl
  | some choice => simp [Choice.ofWord]

/-- **The last record of an id counts**, and a word that means no choice counts as keeping both.
How records of different ids are mixed does not matter, and a table written as records, one for each
id and in their order, is read back as it was. -/
theorem last_record_counts :
    (∀ (a b : List ResolutionRecord) (id : Nat),
      (ofRecords (a ++ b)).get? id
        = ((lastFor? id b).map fun record => (Choice.parse? record.choice).getD .keepBoth).or
          ((ofRecords a).get? id))
    ∧ (∀ a b : List ResolutionRecord, Reordered a b → ofRecords a = ofRecords b)
    ∧ ∀ r : Resolutions,
      r.toRecords.Pairwise (·.id < ·.id)
        ∧ (∀ id, r.toRecords.filter (·.id = id)
          = ((r.get? id).map fun choice => ⟨id, choice.name⟩).toList)
        ∧ ofRecords r.toRecords = r :=
  ⟨get?_ofRecords_append, fun _ _ => ofRecords_eq_of_reordered,
    fun r => ⟨r.pairwise_toRecords, r.filter_toRecords, r.ofRecords_toRecords⟩⟩

/-- The first two of three records change places, and the last one has a word without meaning. -/
theorem last_record_counts_sample :
    let first : ResolutionRecord := ⟨1, "first"⟩
    let other : ResolutionRecord := ⟨2, " B "⟩
    let last : ResolutionRecord := ⟨1, "neither"⟩
    Reordered [first, other, last] [other, first, last]
      ∧ ofRecords [first, other, last] = ofRecords [other, first, last]
      ∧ (ofRecords ([first, other] ++ [last])).get? 1 = some .keepBoth
      ∧ (ofRecords ([first, other] ++ [last])).get? 2 = (ofRecords [first, other]).get? 2
      ∧ (ofRecords [other, first]).toRecords.Pairwise (·.id < ·.id) := by
  obtain ⟨hlast, horder, hrecords⟩ := last_record_counts
  have hreordered : Reordered [⟨1, "first"⟩, ⟨2, " B "⟩, ⟨1, "neither"⟩]
      [⟨2, " B "⟩, ⟨1, "first"⟩, ⟨1, "neither"⟩] :=
    ⟨Equiv.swap ⟨0, by decide⟩ ⟨1, by decide⟩, by decide, by decide⟩
  exact ⟨hreordered, horder _ _ hreordered, (hlast [_, _] [_] 1).trans (by decide),
    (hlast [_, _] [_] 2).trans (by decide), (hrecords _).1⟩

end Resolutions

end ModuleMerge
