import ModuleMerge.Proofs.Table

/-!
# Handing out a table

The merge walks along a row of named places with a table of values by name, and every value goes
to the first place with its name. Here is what such a walk comes to.

A value that was handed out is taken from the table, so every step of the walk changes what the next
one sees, and two places of one name are treated differently. As long as the table is passed along,
nothing can be said about one place without all those before it. The point of this file is that in
the end it is enough to know two look-ups: which place of the row is the first with a name, and what
the table had for that name in the beginning (`mem_handOut_iff`). The composer's walk over a module
is replaced by this one, and after that the order in which it goes does not matter any more.

The second part counts. A table is compared with what is taken out of it and with what is left, as
lists up to their order, so that nothing can be lost or doubled in between.

* `handOut` is the walk, and `mem_handOut_iff` says which place gets which value.
* `flatMap_without_perm` and `flatMap_setValue_perm` say what a table holds after a key is taken
  out or set, whatever the order.
* `flatMap_groupInsertions_perm` says that grouping insertions by path loses none of them.
-/

set_option autoImplicit false

namespace ModuleMerge

/-! ## The walk

Places are anything at all here, and a row may have several places of one name. The table is one in
which look-ups find the first pair with a key, as in the composer. -/

section

variable {κ ι α : Type}

/-- The values that a table has for a row of named places: each goes to the first place with its
name. -/
def handOut (pending : List (String × α)) : List (κ × String) → List (κ × α)
  | [] => []
  | x :: xs =>
    (valueOf? x.2 pending).toList.map (fun value => (x.1, value))
      ++ handOut (without x.2 pending) xs

/-- The first place with a name. -/
def firstPlace? (name : String) (xs : List (κ × String)) : Option κ :=
  (xs.find? (·.2 = name)).map Prod.fst

theorem firstPlace?_cons (name : String) (x : κ × String) (xs : List (κ × String)) :
    firstPlace? name (x :: xs) = if x.2 = name then some x.1 else firstPlace? name xs := by
  by_cases h : x.2 = name <;> simp [firstPlace?, h]

/-- There is a first place with a name if there is any. -/
theorem firstPlace?_eq_none_iff {name : String} {xs : List (κ × String)} :
    firstPlace? name xs = none ↔ name ∉ xs.map Prod.snd := by
  rw [firstPlace?, Option.map_eq_none_iff, List.find?_eq_none]
  constructor
  · intro h hmem
    obtain ⟨x, hx, rfl⟩ := List.mem_map.1 hmem
    exact h x hx (decide_eq_true rfl)
  · intro h x hx hname
    exact h (of_decide_eq_true hname ▸ List.mem_map_of_mem hx)

theorem mem_of_firstPlace? {name : String} {xs : List (κ × String)} {place : κ}
    (h : firstPlace? name xs = some place) : (place, name) ∈ xs := by
  obtain ⟨⟨_, found⟩, hfind, rfl⟩ := Option.map_eq_some_iff.1 h
  obtain rfl : found = name := by simpa using List.find?_some hfind
  exact List.mem_of_find?_eq_some hfind

theorem firstPlace?_append (name : String) (xs ys : List (κ × String)) :
    firstPlace? name (xs ++ ys) = (firstPlace? name xs).or (firstPlace? name ys) := by
  simp [firstPlace?, List.find?_append, Option.map_or]

theorem firstPlace?_map (f : κ → ι) (name : String) (xs : List (κ × String)) :
    firstPlace? name (xs.map fun x => (f x.1, x.2)) = (firstPlace? name xs).map f := by
  rw [firstPlace?, List.find?_map, Option.map_map, firstPlace?, Option.map_map]
  rfl

@[simp] theorem handOut_nil (xs : List (κ × String)) :
    handOut ([] : List (String × α)) xs = [] := by
  induction xs with
  | nil => rfl
  | cons x rest ih => simpa [handOut] using ih

/-- The second part of a row gets what the first part leaves. -/
theorem handOut_append (pending : List (String × α)) (xs ys : List (κ × String)) :
    handOut pending (xs ++ ys)
      = handOut pending xs ++ handOut (withoutAll (xs.map Prod.snd) pending) ys := by
  induction xs generalizing pending with
  | nil => rfl
  | cons x rest ih => simp [handOut, ih, withoutAll]

/-- What the places are does not matter to the walk. -/
theorem handOut_map (f : κ → ι) (pending : List (String × α)) (xs : List (κ × String)) :
    handOut pending (xs.map fun x => (f x.1, x.2))
      = (handOut pending xs).map fun x => (f x.1, x.2) := by
  induction xs generalizing pending with
  | nil => rfl
  | cons x rest ih => simp [handOut, ih, Function.comp_def]

/-- **Each value goes to the first place with its name.** By induction on the row, for all tables:
behind a place the table lacks its name, and this place is before all others with it. -/
theorem mem_handOut_iff {pending : List (String × α)} {xs : List (κ × String)} {place : κ}
    {value : α} :
    (place, value) ∈ handOut pending xs
      ↔ ∃ name, firstPlace? name xs = some place ∧ valueOf? name pending = some value := by
  induction xs generalizing pending with
  | nil => simp [handOut, firstPlace?]
  | cons x rest ih =>
    rw [handOut, List.mem_append, ih]
    constructor
    · rintro (h | ⟨name, hplace, hvalue⟩)
      · obtain ⟨value', hvalue, heq⟩ := List.mem_map.1 h
        obtain ⟨rfl, rfl⟩ := Prod.mk.inj heq
        exact ⟨x.2, by simp [firstPlace?_cons], by simpa using hvalue⟩
      · -- What the rest gets has another name, as this one's value is gone from the table.
        rw [valueOf?_without] at hvalue
        split at hvalue
        · simp at hvalue
        · rename_i hname
          exact ⟨name, by rw [firstPlace?_cons, if_neg (Ne.symm hname), hplace], hvalue⟩
    · rintro ⟨name, hplace, hvalue⟩
      rw [firstPlace?_cons] at hplace
      split at hplace
      · rename_i hname
        obtain rfl := Option.some.inj hplace
        exact .inl (List.mem_map.2 ⟨value, by simp [hname, hvalue], rfl⟩)
      · rename_i hname
        refine .inr ⟨name, hplace, ?_⟩
        rw [valueOf?_without, if_neg (Ne.symm hname), hvalue]

theorem fst_mem_of_mem_handOut {pending : List (String × α)} {xs : List (κ × String)}
    {x : κ × α} (h : x ∈ handOut pending xs) : x.1 ∈ xs.map Prod.fst := by
  obtain ⟨name, hplace, -⟩ := mem_handOut_iff.1 h
  obtain ⟨y, hy, hfst⟩ := Option.map_eq_some_iff.1 hplace
  exact hfst ▸ List.mem_map_of_mem (List.mem_of_find?_eq_some hy)

/-- No place gets two values, if no place comes twice in the row. -/
theorem Keyed.handOut {xs : List (κ × String)} (h : Keyed xs) (pending : List (String × α)) :
    Keyed (handOut pending xs) := by
  induction xs generalizing pending with
  | nil => exact keyed_nil
  | cons x rest ih =>
    obtain ⟨hfresh, hrest⟩ := keyed_cons_iff.1 h
    rw [ModuleMerge.handOut]
    cases valueOf? x.2 pending with
    | none => exact ih hrest _
    | some value =>
      refine keyed_cons_iff.2 ⟨fun hmem => ?_, ih hrest _⟩
      obtain ⟨y, hy, hfst⟩ := List.mem_map.1 hmem
      exact hfresh (hfst ▸ fst_mem_of_mem_handOut hy)

/-! ## Nothing is lost

Now places are compared, and the results are looked up by place. -/

variable [DecidableEq κ]

/-- At the place of a name stands what the table has for the name, if the place is the first. No
other name has that place, so what was said of all names can be said of this one. -/
theorem valueOf?_handOut {xs : List (κ × String)} (h : Keyed xs) {place : κ} {name : String}
    (hmem : (place, name) ∈ xs) (pending : List (String × α)) :
    valueOf? place (handOut pending xs)
      = if firstPlace? name xs = some place then valueOf? name pending else none := by
  have hkeyed := h.handOut pending
  refine Option.ext fun value => ?_
  have hlookup : valueOf? place (handOut pending xs) = some value
      ↔ ∃ n, firstPlace? n xs = some place ∧ valueOf? n pending = some value :=
    ⟨fun hvalue => mem_handOut_iff.1 (mem_of_valueOf? hvalue),
      fun hfirst => valueOf?_of_mem hkeyed (mem_handOut_iff.2 hfirst)⟩
  rw [hlookup, Option.ite_none_right_eq_some]
  refine ⟨fun ⟨n, hfirst, hvalue⟩ => ?_, fun hname => ⟨name, hname⟩⟩
  have hn : some n = some name :=
    (valueOf?_of_mem h (mem_of_firstPlace? hfirst)).symm.trans (valueOf?_of_mem h hmem)
  obtain rfl := Option.some.inj hn
  exact ⟨hfirst, hvalue⟩

/-- What a look-up finds can be put in front. -/
theorem perm_cons_without {key : κ} {value : α} {pairs : List (κ × α)} (h : Keyed pairs)
    (hvalue : valueOf? key pairs = some value) :
    pairs.Perm ((key, value) :: without key pairs) := by
  induction pairs with
  | nil => simp at hvalue
  | cons pair rest ih =>
    obtain ⟨hfresh, hrest⟩ := keyed_cons_iff.1 h
    rw [valueOf?_cons] at hvalue
    rw [without_cons]
    split at hvalue
    · rename_i hkey
      obtain rfl := Option.some.inj hvalue
      rw [if_pos hkey, without_of_not_mem (hkey ▸ hfresh), ← hkey]
    · rename_i hkey
      rw [if_neg hkey]
      exact ((ih hrest hvalue).cons pair).trans (.swap _ _ _)

/-- Taking a key out of a table takes out what the look-up finds, and nothing else. -/
theorem flatMap_without_perm {β : Type} (key : κ) (f : α → List β) {pairs : List (κ × α)}
    (h : Keyed pairs) :
    (((valueOf? key pairs).map f).getD []
      ++ (without key pairs).flatMap fun pair => f pair.2).Perm
        (pairs.flatMap fun pair => f pair.2) := by
  cases hvalue : valueOf? key pairs with
  | none => rw [without_of_not_mem (valueOf?_eq_none_iff.1 hvalue)]; rfl
  | some value =>
    exact ((perm_cons_without h hvalue).flatMap_right fun pair => f pair.2).symm

/-- Setting a value that has more in it than the one before puts that much more into the table. -/
theorem flatMap_setValue_perm {β : Type} {key : κ} {value : α} {more : List β} (f : α → List β)
    {pairs : List (κ × α)} (h : Keyed pairs)
    (hvalue : f value = ((valueOf? key pairs).map f).getD [] ++ more) :
    ((setValue key value pairs).flatMap fun pair => f pair.2).Perm
      ((pairs.flatMap fun pair => f pair.2) ++ more) := by
  induction pairs with
  | nil => simpa [setValue] using List.Perm.of_eq hvalue
  | cons pair rest ih =>
    obtain ⟨hfresh, hrest⟩ := keyed_cons_iff.1 h
    rw [valueOf?_cons] at hvalue
    rw [setValue]
    split
    · rename_i hkey
      rw [if_pos hkey] at hvalue
      simp only [List.flatMap_cons, hvalue, Option.map_some, Option.getD_some, List.append_assoc]
      exact List.perm_append_comm.append_left _
    · rename_i hkey
      rw [if_neg hkey] at hvalue
      simp only [List.flatMap_cons, List.append_assoc]
      exact (ih hrest hvalue).append_left _

end

/-- **Grouping loses no insertion.** -/
theorem flatMap_groupInsertions_perm (insertions : List Insertion) :
    ((groupInsertions insertions).flatMap Prod.snd).Perm (insertions.map Insertion.entry) := by
  have step : ∀ groups : InsertionGroups, Keyed groups →
      ((insertions.foldl (fun groups i => addToGroup i.path i.entry groups) groups).flatMap
          Prod.snd).Perm
        (groups.flatMap Prod.snd ++ insertions.map Insertion.entry) := by
    induction insertions with
    | nil => exact fun groups _ => by simp
    | cons i rest ih =>
      intro groups h
      rw [List.foldl_cons, addToGroup_eq]
      have hgroup : ((setValue i.path ((valueOf? i.path groups).getD [] ++ [i.entry])
          groups).flatMap Prod.snd).Perm (groups.flatMap Prod.snd ++ [i.entry]) :=
        flatMap_setValue_perm id h (by cases valueOf? i.path groups <;> rfl)
      simpa using (ih _ (h.setValue _ _)).trans (hgroup.append_right _)
  exact step [] keyed_nil

end ModuleMerge
