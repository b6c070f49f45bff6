import ModuleMerge.Composition

/-!
# Tables by name

Edits and insertions are kept in rows of pairs, each under a name that occurs once. Everything
the merge does to such a table — take a pair out, set one, add to one — is said here by what a
look-up finds afterwards, so that no later proof opens the recursions.

The plan of a merge has two such tables. Edits are set under the names of types while the plan is
made, and the walk that applies the plan takes each one out again as it comes to its type.
Insertions come as a list, which is gathered into one group for each path before the walk starts,
and the walk takes whole groups out. The program does all of that by recursion on the rows, once for
each kind of table.

Here a row is seen as the function that a look-up makes of it. Then taking a name out is a filter,
and setting one is an update at a point; both are said of rows of any kind, and the program's own
recursions are proved equal to them. A look-up finds the first pair, so the view is the whole truth
only where no name occurs twice: a second pair would come to light when the first is taken out. All
tables start empty and stay `Keyed`, and the laws that need it say so. The order of a row is not in
the view. It counts where groups are laid down one after the other at the end of a module, so for
groups there is also `map_fst_groupInsertions`, which tells the order of the paths.

* `valueOf?` is the look-up, and `Keyed` says that no name occurs twice.
* `takePair?_eq` describes taking a pair out, and `valueOf?_setValue` setting one.
* `groupInsertions_eq` says that each path has one group, which holds the path's insertions in
  order.
-/

set_option autoImplicit false

namespace ModuleMerge

section

variable {κ α : Type}

/-- No key occurs twice. -/
def Keyed (pairs : List (κ × α)) : Prop :=
  (pairs.map Prod.fst).Nodup

@[simp] theorem keyed_nil : Keyed ([] : List (κ × α)) :=
  List.nodup_nil

theorem keyed_cons_iff {pair : κ × α} {rest : List (κ × α)} :
    Keyed (pair :: rest) ↔ pair.1 ∉ rest.map Prod.fst ∧ Keyed rest :=
  List.nodup_cons

/-- To leave pairs out does not make two of one name. -/
theorem Keyed.filter {pairs : List (κ × α)} (h : Keyed pairs) (p : κ × α → Bool) :
    Keyed (pairs.filter p) :=
  (List.Sublist.map Prod.fst List.filter_sublist).nodup h

variable [DecidableEq κ]

/-- The value of the first pair with a key. -/
def valueOf? (key : κ) (pairs : List (κ × α)) : Option α :=
  (pairs.find? fun pair => pair.1 = key).map Prod.snd

@[simp] theorem valueOf?_nil (key : κ) : valueOf? key ([] : List (κ × α)) = none := rfl

@[simp] theorem valueOf?_cons (key : κ) (pair : κ × α) (rest : List (κ × α)) :
    valueOf? key (pair :: rest) = if pair.1 = key then some pair.2 else valueOf? key rest := by
  by_cases h : pair.1 = key <;> simp [valueOf?, h]

/-- What stands before counts before what stands behind. -/
theorem valueOf?_append (key : κ) (xs ys : List (κ × α)) :
    valueOf? key (xs ++ ys) = (valueOf? key xs).or (valueOf? key ys) := by
  simp [valueOf?, List.find?_append, Option.map_or]

/-- A look-up fails for those names only that are not in the table. -/
theorem valueOf?_eq_none_iff {key : κ} {pairs : List (κ × α)} :
    valueOf? key pairs = none ↔ key ∉ pairs.map Prod.fst := by
  induction pairs with
  | nil => simp
  | cons pair rest ih =>
    rw [valueOf?_cons, List.map_cons, List.mem_cons, not_or, ← ih]
    by_cases h : pair.1 = key
    · simp [h]
    · simp [h, Ne.symm h]

/-- What is found was there, whether or not the name has other pairs. -/
theorem mem_of_valueOf? {key : κ} {value : α} {pairs : List (κ × α)}
    (h : valueOf? key pairs = some value) : (key, value) ∈ pairs := by
  obtain ⟨⟨found, _⟩, hfind, rfl⟩ := Option.map_eq_some_iff.1 h
  obtain rfl : found = key := by simpa using List.find?_some hfind
  exact List.mem_of_find?_eq_some hfind

/-- What is there is found, if it cannot be hidden by an earlier pair of the name. -/
theorem valueOf?_of_mem {pairs : List (κ × α)} (h : Keyed pairs) {key : κ} {value : α}
    (hmem : (key, value) ∈ pairs) : valueOf? key pairs = some value := by
  induction pairs with
  | nil => simp at hmem
  | cons pair rest ih =>
    obtain ⟨hfresh, hrest⟩ := keyed_cons_iff.1 h
    rcases List.mem_cons.1 hmem with rfl | hmem
    · simp
    · have hne : pair.1 ≠ key := fun heq => hfresh (heq ▸ List.mem_map_of_mem hmem)
      rw [valueOf?_cons, if_neg hne, ih hrest hmem]

/-! ## Lists without repeated keys

The same for lists whose elements carry their keys themselves, like members with their positions and
ledger entries with their ids. To pick out by key is then to pick out one element, and it does not
matter in which order the others stand. -/

/-- Where no key occurs twice, an element is the only one with its key. -/
theorem filter_of_nodup {key : α → κ} {xs : List α} (h : (xs.map key).Nodup) {x : α}
    (hx : x ∈ xs) : xs.filter (key · = key x) = [x] := by
  obtain ⟨before, after, rfl⟩ := List.append_of_mem hx
  rw [List.map_append, List.map_cons, List.nodup_append, List.nodup_cons] at h
  obtain ⟨-, ⟨hafter, -⟩, hbefore⟩ := h
  have hnone : ∀ ys : List α, key x ∉ ys.map key → ys.filter (key · = key x) = [] := by
    intro ys hys
    rw [List.filter_eq_nil_iff]
    intro y hy hkey
    exact hys (of_decide_eq_true hkey ▸ List.mem_map_of_mem hy)
  rw [List.filter_append, List.filter_cons_of_pos (by simp), hnone after hafter, hnone before]
  · rfl
  · exact fun hmem => hbefore _ hmem _ List.mem_cons_self rfl

/-- Where no key occurs twice, every element is found by its key. -/
theorem find?_of_nodup {key : α → κ} {xs : List α} (h : (xs.map key).Nodup) {x : α} (hx : x ∈ xs) :
    xs.find? (key · = key x) = some x := by
  rw [← List.head?_filter, filter_of_nodup h hx]
  rfl

/-- Where no key occurs twice, the order of a list does not matter for what is found by a key. -/
theorem find?_of_perm {key : α → κ} {xs ys : List α} (h : (xs.map key).Nodup) (hperm : xs.Perm ys)
    (k : κ) : xs.find? (key · = k) = ys.find? (key · = k) := by
  have hys : (ys.map key).Nodup := (hperm.map key).nodup h
  cases hfound : xs.find? (key · = k) with
  | some x =>
    obtain rfl : key x = k := by simpa using List.find?_some hfound
    exact (find?_of_nodup hys (hperm.mem_iff.1 (List.mem_of_find?_eq_some hfound))).symm
  | none =>
    refine (List.find?_eq_none.2 fun y hy => ?_).symm
    exact List.find?_eq_none.1 hfound y (hperm.mem_iff.2 hy)

/-! ## Taking a pair out

A walk through a module takes out one name after the other, and goes on with what is left. After
some names nothing is left of them and all else is as it was, in whatever order they came
(`withoutAll_eq_filter`). -/

/-- The table without a name. -/
def without (key : κ) (pairs : List (κ × α)) : List (κ × α) :=
  pairs.filter fun pair => pair.1 ≠ key

@[simp] theorem without_nil (key : κ) : without key ([] : List (κ × α)) = [] := rfl

@[simp] theorem without_cons (key : κ) (pair : κ × α) (rest : List (κ × α)) :
    without key (pair :: rest)
      = if pair.1 = key then without key rest else pair :: without key rest := by
  by_cases h : pair.1 = key <;> simp [without, h]

/-- A name that is not there is out already. -/
theorem without_of_not_mem {key : κ} {pairs : List (κ × α)}
    (h : key ∉ pairs.map Prod.fst) : without key pairs = pairs := by
  refine List.filter_eq_self.2 fun pair hpair => ?_
  have hne : pair.1 ≠ key := fun heq => h (heq ▸ List.mem_map_of_mem hpair)
  simpa using hne

/-- A name that was taken out is not found, and others are found as before. -/
theorem valueOf?_without (key name : κ) (pairs : List (κ × α)) :
    valueOf? name (without key pairs) = if name = key then none else valueOf? name pairs := by
  induction pairs with
  | nil => simp
  | cons pair rest ih =>
    rw [without_cons, valueOf?_cons]
    by_cases hk : pair.1 = key
    · rw [if_pos hk, ih]
      by_cases hn : name = key
      · simp [hn]
      · have hpn : pair.1 ≠ name := fun h => hn (h ▸ hk)
        simp [hn, hpn]
    · rw [if_neg hk, valueOf?_cons, ih]
      by_cases hpn : pair.1 = name
      · simp [← hpn, hk]
      · simp [hpn]

theorem Keyed.without {pairs : List (κ × α)} (h : Keyed pairs) (key : κ) :
    Keyed (without key pairs) :=
  h.filter _

/-- The table without several names. -/
def withoutAll (keys : List κ) (pairs : List (κ × α)) : List (κ × α) :=
  keys.foldl (fun left key => without key left) pairs

theorem withoutAll_append (xs ys : List κ) (pairs : List (κ × α)) :
    withoutAll (xs ++ ys) pairs = withoutAll ys (withoutAll xs pairs) :=
  List.foldl_append ..

/-- It is one filter for all names, so the order in which they are taken out does not matter, nor
whether a name is taken out twice. -/
theorem withoutAll_eq_filter (keys : List κ) (pairs : List (κ × α)) :
    withoutAll keys pairs = pairs.filter fun pair => pair.1 ∉ keys := by
  induction keys generalizing pairs with
  | nil => exact (List.filter_eq_self.2 fun pair _ => by simp).symm
  | cons key rest ih =>
    rw [withoutAll, List.foldl_cons, ← withoutAll, ih, without, List.filter_filter]
    refine List.filter_congr fun pair _ => ?_
    simp [Bool.and_comm]

theorem valueOf?_withoutAll (keys : List κ) (name : κ) (pairs : List (κ × α)) :
    valueOf? name (withoutAll keys pairs) = if name ∈ keys then none else valueOf? name pairs := by
  induction keys generalizing pairs with
  | nil => simp [withoutAll]
  | cons key rest ih =>
    rw [withoutAll, List.foldl_cons, ← withoutAll, ih, valueOf?_without]
    by_cases hn : name = key <;> simp [hn]

theorem mem_withoutAll_iff {keys : List κ} {pair : κ × α} {pairs : List (κ × α)} :
    pair ∈ withoutAll keys pairs ↔ pair ∈ pairs ∧ pair.1 ∉ keys := by
  rw [withoutAll_eq_filter, List.mem_filter, decide_eq_true_iff]

theorem mem_of_mem_withoutAll {keys : List κ} {pair : κ × α}
    {pairs : List (κ × α)} (h : pair ∈ withoutAll keys pairs) : pair ∈ pairs :=
  (mem_withoutAll_iff.1 h).1

theorem Keyed.withoutAll {pairs : List (κ × α)} (h : Keyed pairs) (keys : List κ) :
    Keyed (withoutAll keys pairs) := by
  rw [withoutAll_eq_filter]
  exact h.filter _

/-- **Taking a name out** of a table gives what a look-up finds, and leaves the other names. The
program stops at the first pair of the name, while `without` goes on to the end; where names do not
repeat, there is nothing more to find. -/
theorem takePair?_eq (key : String) {pairs : List (String × α)} (h : Keyed pairs) :
    takePair? key pairs = (valueOf? key pairs).map fun value => (value, without key pairs) := by
  induction pairs with
  | nil => rfl
  | cons pair rest ih =>
    obtain ⟨hfresh, hrest⟩ := keyed_cons_iff.1 h
    rw [takePair?, valueOf?_cons]
    by_cases hk : pair.1 = key
    · subst hk
      simp [without_of_not_mem hfresh]
    · simp [hk, ih hrest, Function.comp_def]

/-! ## Setting a value

A name that is there keeps its place and gets another value, and a new name goes to the end. So a
table keeps the order in which its names first came up. -/

/-- The table with a value for a name, where the name's pair stands or else at the end. -/
def setValue (key : κ) (value : α) : List (κ × α) → List (κ × α)
  | [] => [(key, value)]
  | pair :: rest =>
    if pair.1 = key then (key, value) :: rest else pair :: setValue key value rest

/-- What was set is found, and all other names have the values that they had. -/
theorem valueOf?_setValue (key name : κ) (value : α) (pairs : List (κ × α)) :
    valueOf? name (setValue key value pairs)
      = if key = name then some value else valueOf? name pairs := by
  induction pairs with
  | nil => rw [setValue, valueOf?_cons]
  | cons pair rest ih =>
    rw [setValue]
    by_cases hk : pair.1 = key
    · subst hk
      rw [if_pos rfl, valueOf?_cons, valueOf?_cons]
      by_cases hn : pair.1 = name <;> simp [hn]
    · rw [if_neg hk, valueOf?_cons, valueOf?_cons, ih]
      by_cases hn : pair.1 = name
      · have hkn : key ≠ name := fun h => hk (hn.trans h.symm)
        simp [hn, hkn]
      · simp [hn]

/-- What is set last counts. -/
theorem setValue_setValue (key : κ) (old new : α) (pairs : List (κ × α)) :
    setValue key new (setValue key old pairs) = setValue key new pairs := by
  induction pairs with
  | nil => simp [setValue]
  | cons pair rest ih =>
    by_cases h : pair.1 = key
    · simp [setValue, h]
    · simp [setValue, h, ih]

/-- The names after setting one: the same, or one more at the end. -/
theorem map_fst_setValue (key : κ) (value : α) (pairs : List (κ × α)) :
    (setValue key value pairs).map Prod.fst
      = if key ∈ pairs.map Prod.fst then pairs.map Prod.fst else pairs.map Prod.fst ++ [key] := by
  induction pairs with
  | nil => simp [setValue]
  | cons pair rest ih =>
    rw [setValue]
    split
    · rename_i hkey
      simp [hkey]
    · rename_i hkey
      rw [List.map_cons, List.map_cons, ih]
      by_cases hmem : key ∈ rest.map Prod.fst
      · rw [if_pos hmem, if_pos (List.mem_cons_of_mem _ hmem)]
      · have hfresh : key ∉ pair.1 :: rest.map Prod.fst := by
          simp only [List.mem_cons, not_or]
          exact ⟨Ne.symm hkey, hmem⟩
        rw [if_neg hmem, if_neg hfresh, List.cons_append]

theorem Keyed.setValue {pairs : List (κ × α)} (h : Keyed pairs) (key : κ) (value : α) :
    Keyed (setValue key value pairs) := by
  rw [Keyed, map_fst_setValue]
  split
  · exact h
  · rename_i hfresh
    exact List.nodup_append.2 ⟨h, by simp, fun a ha b hb heq =>
      hfresh (List.mem_singleton.1 hb ▸ heq ▸ ha)⟩

end

/-- The edit of a type in a plan; a name that has none is left as it is. -/
theorem EditPlan.edit_eq (plan : EditPlan) (name : String) :
    plan.edit name = (valueOf? name plan.edits).getD .empty := rfl

/-- A pair of a plan is the edit of its name. -/
theorem EditPlan.edit_of_mem {plan : EditPlan} (h : Keyed plan.edits) {pair : String × TypeEdit}
    (hmem : pair ∈ plan.edits) : plan.edit pair.1 = pair.2 := by
  rw [edit_eq, valueOf?_of_mem h hmem]
  rfl

theorem EditPlan.setPair_eq (name : String) (edit : TypeEdit) (pairs : List (String × TypeEdit)) :
    EditPlan.setPair name edit pairs = setValue name edit pairs := by
  induction pairs with
  | nil => rfl
  | cons pair rest ih => rw [setPair, setValue, ih]

/-! ## Groups of insertions

A list of insertions becomes a table of groups, one insertion at a time. Both things that matter of
the table are found by going along the list with what has been gathered so far: the group of a path
grows by the insertions that are for the path, and the row of paths by those paths that are new. -/

/-- Adding an entry sets its path's group to one that has the entry at the end. -/
theorem addToGroup_eq (path : String) (entry : Entry) (groups : InsertionGroups) :
    addToGroup path entry groups
      = setValue path ((valueOf? path groups).getD [] ++ [entry]) groups := by
  induction groups with
  | nil => rfl
  | cons group rest ih =>
    rw [addToGroup, setValue, valueOf?_cons]
    by_cases h : group.1 = path
    · simp [h]
    · simp [h, ih]

/-- No path has two groups, for every step sets the value of a name. -/
theorem keyed_groupInsertions (insertions : List Insertion) :
    Keyed (groupInsertions insertions) := by
  refine List.foldlRecOn insertions _ (motive := Keyed) keyed_nil fun groups h i _ => ?_
  rw [addToGroup_eq]
  exact h.setValue _ _

/-- The group of a path holds the insertions for the path, in their order. -/
theorem valueOf?_groupInsertions (path : String) (insertions : List Insertion) :
    (valueOf? path (groupInsertions insertions)).getD []
      = (insertions.filter (·.path = path)).map Insertion.entry := by
  -- From any groups on, the insertions that are still to come go behind those that are there.
  have step : ∀ groups : InsertionGroups,
      (valueOf? path
          (insertions.foldl (fun groups i => addToGroup i.path i.entry groups) groups)).getD []
        = (valueOf? path groups).getD []
          ++ (insertions.filter (·.path = path)).map Insertion.entry := by
    induction insertions with
    | nil => intro groups; simp
    | cons i rest ih =>
      intro groups
      rw [List.foldl_cons, ih, addToGroup_eq, valueOf?_setValue, List.filter_cons]
      by_cases h : i.path = path
      · simp [h]
      · simp [h]
  exact step []

/-- Each path has one group, and the groups come as their paths are first met. -/
theorem map_fst_groupInsertions (insertions : List Insertion) :
    (groupInsertions insertions).map Prod.fst = (insertions.map Insertion.path).eraseDups := by
  have step : ∀ (seen : List String) (groups : InsertionGroups),
      groups.map Prod.fst = seen.eraseDups →
      (insertions.foldl (fun groups i => addToGroup i.path i.entry groups) groups).map Prod.fst
        = (seen ++ insertions.map Insertion.path).eraseDups := by
    induction insertions with
    | nil => intro seen groups h; simpa using h
    | cons i rest ih =>
      intro seen groups h
      have hgroups : (addToGroup i.path i.entry groups).map Prod.fst
          = (seen ++ [i.path]).eraseDups := by
        rw [addToGroup_eq, map_fst_setValue, h, List.eraseDups_append]
        by_cases hmem : i.path ∈ seen <;> simp [List.removeAll, List.eraseDups_cons, hmem]
      simpa using ih (seen ++ [i.path]) _ hgroups
  exact step [] [] rfl

/-- **The groups, all at once**: for each path, as the paths are first met, its insertions in their
order. This is what later proofs use, and it does not mention how the groups were gathered. -/
theorem groupInsertions_eq (insertions : List Insertion) :
    groupInsertions insertions
      = (insertions.map Insertion.path).eraseDups.map fun path =>
          (path, (insertions.filter (·.path = path)).map Insertion.entry) := by
  have hkeyed := keyed_groupInsertions insertions
  rw [← map_fst_groupInsertions, List.map_map]
  refine (List.map_id _).symm.trans (List.map_congr_left fun group hgroup => ?_)
  have hvalue := valueOf?_groupInsertions group.1 insertions
  rw [valueOf?_of_mem hkeyed hgroup] at hvalue
  exact Prod.ext rfl hvalue

/-- Every insertion is in the group of its path. -/
theorem exists_group_of_mem {i : Insertion} {insertions : List Insertion} (h : i ∈ insertions) :
    ∃ run, valueOf? i.path (groupInsertions insertions) = some run ∧ i.entry ∈ run := by
  have hmem : i.entry ∈ (valueOf? i.path (groupInsertions insertions)).getD [] := by
    rw [valueOf?_groupInsertions]
    exact List.mem_map_of_mem (List.mem_filter.2 ⟨h, by simp⟩)
  cases hrun : valueOf? i.path (groupInsertions insertions) with
  | none => simp [hrun] at hmem
  | some run => exact ⟨run, rfl, by simpa [hrun] using hmem⟩

/-- Whatever stands in a group was to be inserted. -/
theorem mem_insertions_of_group {path : String} {run : List Entry} {insertions : List Insertion}
    (h : (path, run) ∈ groupInsertions insertions) {e : Entry} (he : e ∈ run) :
    ∃ i ∈ insertions, i.path = path ∧ i.entry = e := by
  have hrun := valueOf?_of_mem (keyed_groupInsertions insertions) h
  have hmem : e ∈ (insertions.filter (·.path = path)).map Insertion.entry := by
    rw [← valueOf?_groupInsertions, hrun]
    exact he
  obtain ⟨i, hi, rfl⟩ := List.mem_map.1 hmem
  obtain ⟨hi, hpath⟩ := List.mem_filter.1 hi
  exact ⟨i, hi, by simpa using hpath, rfl⟩

/-- Every group is for the path of an insertion. -/
theorem exists_insertion_of_group {path : String} {insertions : List Insertion}
    (h : path ∈ (groupInsertions insertions).map Prod.fst) : ∃ i ∈ insertions, i.path = path := by
  rw [map_fst_groupInsertions, List.mem_eraseDups] at h
  exact List.mem_map.1 h

/-- No group is empty. -/
theorem ne_nil_of_mem_groupInsertions {insertions : List Insertion} {group : String × List Entry}
    (h : group ∈ groupInsertions insertions) : group.2 ≠ [] := by
  obtain ⟨i, hi, hpath⟩ := exists_insertion_of_group (List.mem_map_of_mem h)
  have hrun := valueOf?_of_mem (keyed_groupInsertions insertions) h
  have hvalue := valueOf?_groupInsertions group.1 insertions
  rw [hrun, Option.getD_some] at hvalue
  rw [hvalue]
  exact List.ne_nil_of_mem (List.mem_map_of_mem (List.mem_filter.2 ⟨hi, by simpa using hpath⟩))

end ModuleMerge
