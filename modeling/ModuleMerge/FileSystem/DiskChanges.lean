import ModuleMerge.FileSystem.Basic

/-!
# From one file system to another

A run of the program works on a file system that is a value, and gives another one. What is on a
disk has to follow, and it should be touched no more than it must: what is the same in both stays as
it is. The difference of two file systems lists what is gone and what is new or has changed.

That what is gone is listed at all matters where a file was moved: it stands at its new place, and
the old place is empty. To write all that there is would leave it there too.

* `FileSystem.diskChanges` compares two file systems, and `DiskChanges.applyTo` makes the changes.
* `FileSystem.at?_applyTo_diskChanges` says that they make the first into the second.
-/

set_option autoImplicit false

namespace ModuleMerge

/-- How a file system changes. -/
structure DiskChanges where
  /-- The places where nothing stands any more. -/
  gone : List Location
  /-- What stands at other places from now on, in the order in which it came there. -/
  fresh : List (Location × Node)
  deriving DecidableEq, Repr

/-- A file system after the change. -/
def DiskChanges.applyTo (d : DiskChanges) (fs : FileSystem) : FileSystem :=
  d.fresh.foldl (fun fs entry => fs.put entry.1 entry.2) (d.gone.foldl FileSystem.erase fs)

namespace FileSystem

/-- What has to change in one file system to get another one. -/
def diskChanges (before after : FileSystem) : DiskChanges where
  gone := (before.nodes.map Prod.fst).filter fun place => after.at? place = none
  -- What came last stands first in the list, so it is turned round: a directory has to be made
  -- before what is in it.
  fresh := after.nodes.reverse.filter fun entry =>
    after.at? entry.1 = some entry.2 && before.at? entry.1 ≠ some entry.2

/-! ## One place after many changes -/

variable {before after : FileSystem} {place : Location}

theorem at?_foldl_erase (fs : FileSystem) (places : List Location) (h : place ≠ []) :
    (places.foldl erase fs).at? place = if place ∈ places then none else fs.at? place := by
  induction places generalizing fs with
  | nil => simp
  | cons other rest ih =>
    rw [List.foldl_cons, ih]
    by_cases hplace : place = other
    · subst hplace
      simp [at?_erase_self fs h]
    · simp [hplace, at?_erase_of_ne fs hplace]

/-- If all that is put comes from one file system, the places where something was put are as they
are there. -/
theorem at?_foldl_put (fs : FileSystem) {entries : List (Location × Node)}
    (hentries : ∀ entry ∈ entries, after.at? entry.1 = some entry.2) (h : place ≠ []) :
    (entries.foldl (fun fs entry => fs.put entry.1 entry.2) fs).at? place
      = if place ∈ entries.map Prod.fst then after.at? place else fs.at? place := by
  induction entries generalizing fs with
  | nil => simp
  | cons entry rest ih =>
    obtain ⟨hentry, hrest⟩ := List.forall_mem_cons.1 hentries
    rw [List.foldl_cons, ih _ hrest]
    by_cases hplace : place = entry.1
    · subst hplace
      simp [at?_put_self fs entry.2 h, hentry]
    · simp only [List.map_cons, List.mem_cons, hplace, false_or, at?_put_of_ne fs entry.2 hplace]

/-! ## The whole change -/

theorem at?_eq_none_iff {fs : FileSystem} (h : place ≠ []) :
    fs.at? place = none ↔ place ∉ fs.nodes.map Prod.fst := by
  rw [at?, if_neg h, List.lookup_eq_none_iff]
  constructor
  · intro hall hmem
    obtain ⟨entry, hentry, rfl⟩ := List.mem_map.1 hmem
    simpa using hall entry hentry
  · intro hnot entry hentry
    have hne : place ≠ entry.1 := fun heq => hnot (heq ▸ List.mem_map_of_mem hentry)
    simpa using hne

theorem mem_nodes_of_at? {fs : FileSystem} {node : Node} (h : place ≠ [])
    (hnode : fs.at? place = some node) : (place, node) ∈ fs.nodes := by
  rw [at?, if_neg h] at hnode
  obtain ⟨front, back, hnodes, -⟩ := List.lookup_eq_some_iff.1 hnode
  rw [hnodes]
  exact List.mem_append_right _ List.mem_cons_self

/-- **The difference of two file systems makes the first into the second**, at every place. -/
theorem at?_applyTo_diskChanges (before after : FileSystem) (place : Location) :
    ((before.diskChanges after).applyTo before).at? place = after.at? place := by
  by_cases hroot : place = []
  · subst hroot
    simp
  have hfresh : ∀ entry ∈ (before.diskChanges after).fresh, after.at? entry.1 = some entry.2 := by
    intro entry hentry
    obtain ⟨-, hfresh⟩ := List.mem_filter.1 hentry
    rw [Bool.and_eq_true] at hfresh
    exact of_decide_eq_true hfresh.1
  rw [DiskChanges.applyTo, at?_foldl_put _ hfresh hroot, at?_foldl_erase _ _ hroot]
  split
  · rfl
  · rename_i hsame
    -- Nothing was put at the place, so what stands there afterwards stood there before.
    have hkept : ∀ node, after.at? place = some node → before.at? place = some node := by
      intro node hnode
      refine Classical.byContradiction fun hne => hsame ?_
      refine List.mem_map.2 ⟨(place, node), List.mem_filter.2 ⟨?_, by simp [hnode, hne]⟩, rfl⟩
      exact List.mem_reverse.2 (mem_nodes_of_at? hroot hnode)
    cases hafter : after.at? place with
    | some node =>
      have hgone : place ∉ (before.diskChanges after).gone := by
        simp [diskChanges, hafter]
      rw [if_neg hgone, hkept node hafter]
    | none =>
      split
      · rfl
      · rename_i hgone
        refine (at?_eq_none_iff hroot).2 fun hplace => hgone ?_
        exact List.mem_filter.2 ⟨hplace, by simp [hafter]⟩

/-- Where nothing changes there is nothing to do. -/
theorem diskChanges_self (fs : FileSystem) : fs.diskChanges fs = ⟨[], []⟩ := by
  have hgone : (fs.nodes.map Prod.fst).filter (fun place => fs.at? place = none) = [] := by
    refine List.filter_eq_nil_iff.2 fun place hplace hnone => ?_
    by_cases hroot : place = []
    · simp [hroot] at hnone
    · exact (at?_eq_none_iff hroot).1 (of_decide_eq_true hnone) hplace
  have hfresh : fs.nodes.reverse.filter
      (fun entry => fs.at? entry.1 = some entry.2 && fs.at? entry.1 ≠ some entry.2) = [] :=
    List.filter_eq_nil_iff.2 fun entry _ hentry => by simp at hentry
  rw [diskChanges, hgone, hfresh]

end FileSystem

end ModuleMerge
