import ModuleMerge.FileSystem.Basic
import ModuleMerge.Proofs.Steps

/-!
# What is written is read back

A path is followed from directory to directory, so what happens to files changes nothing on the way.
That needs care with dots: a path may pass a place more than once, but only while this is a
directory, and then no file can be put there.

So what an operation leaves as it was is said of places, and not of paths. Paths can be spelled in
many ways, and with links out of the picture each of them leads to one place or to none. All
directories stay, whatever a run does: nothing in it removes one, and a file is moved or written
only to where there is no directory. That alone makes every path that led somewhere lead there
still.

What has become of the files is said with a set of places that counts as changed. For one operation
these are the places where its paths lead. A run does several, and its later paths may lead nowhere
before the earlier operations have been done. So the sets are taken as the places where paths lead
in the end (`LedTo`), which only grow while paths get to lead somewhere.

* `FileSystem.KeepsExcept` says that all directories stay, and all files but those at some places.
  `KeepsExcept.locate` and `KeepsExcept.read` follow a path as before.
* `FileSystem.update_eq_ok` and `FileSystem.rename_eq_ok` say what an operation did.
* `FileSystem.read_of_write` and `FileSystem.read_of_rename` read what was written to a path, and
  what was moved to one.
* `FileSystem.LedTo` are the places where some paths lead, and `KeepsExcept.andThen` puts changes
  there together.
-/

set_option autoImplicit false

namespace ModuleMerge

open Acting

/-! ## Names at the end of paths -/

namespace Path

/-- The file name of a path is one of the parts between slashes. -/
theorem not_mem_of_fileName? {p : Path} {name : String} (h : p.fileName? = some name) :
    '/' ∉ name.toList := by
  rw [fileName?] at h
  split at h
  · simp at h
  · rename_i segment hhead
    split at h
    · simp at h
    · obtain rfl := Option.some.inj h
      rw [String.toList_ofList]
      exact Text.not_mem_of_mem_parts
        (List.mem_reverse.1 (List.dropWhile_subset _ (List.mem_of_head? hhead)))

/-- A path that goes on with a name ends in the name. -/
theorem exists_segments_join (p : Path) {name : String} (hslash : '/' ∉ name.toList) :
    ∃ front, segments (p.join ⟨name⟩).text.toList = front ++ [name.toList] := by
  rw [join]
  split
  · exact ⟨[], Text.parts_of_not_mem hslash⟩
  split
  · rename_i hends
    obtain ⟨front, hfront⟩ := List.getLast?_eq_some_iff.1 (of_decide_eq_true hends)
    refine ⟨Text.parts '/' front, ?_⟩
    rw [String.toList_append, hfront, List.append_assoc, List.singleton_append, segments,
      Text.parts_append, Text.parts_of_not_mem hslash]
  · refine ⟨Text.parts '/' p.text.toList, ?_⟩
    rw [String.toList_append, String.toList_append, List.append_assoc,
      show "/".toList = ['/'] from rfl, List.singleton_append, segments, Text.parts_append,
      Text.parts_of_not_mem hslash]

/-- The name is the last step of the path, unless it is empty and no step at all. -/
theorem getLast?_steps_join (p : Path) {name : String} (hslash : '/' ∉ name.toList)
    (hname : name ≠ "") : (p.join ⟨name⟩).steps.getLast? = some name := by
  obtain ⟨front, hfront⟩ := exists_segments_join p hslash
  have hne : name.toList ≠ [] := by simpa using hname
  rw [steps, hfront, List.filter_append, List.map_append,
    List.filter_cons_of_pos (by simpa using hne)]
  simp

end Path

namespace FileSystem

variable {fs fs' fs'' : FileSystem} {place : Location} {changed : Location → Prop}

/-! ## Looking at a place -/

/-- The root is a directory. -/
theorem ne_nil_of_at? (h : fs.at? place ≠ some .directory) : place ≠ [] := by
  rintro rfl
  exact h rfl

/-- Names lead on from directories only. -/
theorem at?_of_step {start next : Location} {name : String} (h : fs.step start name = .ok next) :
    fs.at? start = some .directory := by
  rw [step] at h
  split at h
  · simp at h
  · simp at h
  · assumption

/-! ## What stays

Nothing is said of the places that count as changed, nor of those where there was nothing: a file or
a directory may have come into being there. -/

/-- All directories stay, and so do all files but those at some places. Relative paths start where
they did. -/
structure KeepsExcept (fs : FileSystem) (changed : Location → Prop) (fs' : FileSystem) : Prop where
  current : fs'.current = fs.current
  directory : ∀ place, fs.at? place = some .directory → fs'.at? place = some .directory
  file : ∀ place content, ¬ changed place → fs.at? place = some (.file content) →
    fs'.at? place = some (.file content)

/-- A path whose last name can be given to a new file leads to a place of that name. The last step
can not be a dot or two, so it adds its name to the place before. -/
theorem getLast?_of_locate {p : Path} (hnaming : isNaming p = true)
    (hlocate : fs.locate p = .ok place) : place.getLast? = p.steps.getLast? := by
  rw [isNaming] at hnaming
  cases hlast : p.steps.getLast? with
  | none => simp [hlast] at hnaming
  | some name =>
    obtain ⟨hdot, hdots⟩ : name ≠ "." ∧ name ≠ ".." := by simpa [hlast] using hnaming
    obtain ⟨front, hsteps⟩ := List.getLast?_eq_some_iff.1 hlast
    rw [locate] at hlocate
    split at hlocate
    · simp at hlocate
    · rw [hsteps, List.foldlM_append] at hlocate
      generalize front.foldlM fs.step _ = way at hlocate
      cases way with
      | error e => simp [bind, Except.bind] at hlocate
      | ok directory =>
        simp only [bind, Except.bind, List.foldlM_cons, List.foldlM_nil] at hlocate
        cases hstep : fs.step directory name with
        | error e => simp [hstep] at hlocate
        | ok last =>
          -- The last step is a name, so it goes down by this name.
          rw [hstep] at hlocate
          cases hlocate
          rw [step, at?_of_step hstep] at hstep
          simp only [if_neg hdot, if_neg hdots] at hstep
          cases hstep
          simp

namespace KeepsExcept

/-- If nothing is done, everything stays. -/
theorem refl (fs : FileSystem) (changed : Location → Prop) : fs.KeepsExcept changed fs :=
  ⟨rfl, fun _ h => h, fun _ _ _ h => h⟩

/-- One change after the other, if both are to the same places. -/
theorem trans (h : fs.KeepsExcept changed fs') (h' : fs'.KeepsExcept changed fs'') :
    fs.KeepsExcept changed fs'' where
  current := h'.current.trans h.current
  directory place hplace := h'.directory place (h.directory place hplace)
  file place content hne hplace := h'.file place content hne (h.file place content hne hplace)

/-- More places may count as changed. -/
theorem mono {more : Location → Prop} (h : fs.KeepsExcept changed fs')
    (hmore : ∀ place, changed place → more place) : fs.KeepsExcept more fs' :=
  ⟨h.current, h.directory, fun place content hne => h.file place content (mt (hmore place) hne)⟩

/-- Something may be put where there is no directory, and where a file counts as changed. -/
theorem put (hplace : fs.at? place ≠ some .directory)
    (hchanged : ∀ content, fs.at? place = some (.file content) → changed place) (node : Node) :
    fs.KeepsExcept changed (fs.put place node) where
  current := rfl
  directory other hother := by
    rw [at?_put fs place other node (ne_nil_of_at? hplace), if_neg, hother]
    rintro rfl
    exact hplace hother
  file other content hne hother := by
    rw [at?_put fs place other node (ne_nil_of_at? hplace), if_neg, hother]
    rintro rfl
    exact hne (hchanged content hother)

/-- Something may be moved between places of no directories that count as changed. -/
theorem move {start stop : Location} (hstart : fs.at? start ≠ some .directory)
    (hstop : fs.at? stop ≠ some .directory) (hleft : changed start) (hentered : changed stop)
    (node : Node) : fs.KeepsExcept changed ((fs.erase start).put stop node) := by
  have hsame : ∀ place, place ≠ start → place ≠ stop →
      ((fs.erase start).put stop node).at? place = fs.at? place := by
    intro place hne hne'
    rw [at?_put_of_ne _ node hne', at?_erase_of_ne fs hne]
  refine ⟨rfl, fun place hplace => ?_, fun place content hne hplace => ?_⟩
  · have hne : place ≠ start := fun h => hstart (h ▸ hplace)
    have hne' : place ≠ stop := fun h => hstop (h ▸ hplace)
    rw [hsame place hne hne', hplace]
  · have hne' : place ≠ start ∧ place ≠ stop :=
      ⟨fun h => hne (h ▸ hleft), fun h => hne (h ▸ hentered)⟩
    rw [hsame place hne'.1 hne'.2, hplace]

/-- A step starts at a directory, and that is there still. -/
theorem step (h : fs.KeepsExcept changed fs') {start stop : Location} {name : String}
    (hstep : fs.step start name = .ok stop) : fs'.step start name = .ok stop := by
  have hstart := at?_of_step hstep
  rw [FileSystem.step, hstart] at hstep
  rw [FileSystem.step, h.directory start hstart]
  exact hstep

/-- **A path leads where it led.** By induction on its steps: each was made from a directory. A path
that led nowhere may lead somewhere afterwards, so this is no equation. -/
theorem locate (h : fs.KeepsExcept changed fs') {p : Path} {stop : Location}
    (hlocate : fs.locate p = .ok stop) : fs'.locate p = .ok stop := by
  have hsteps : ∀ (names : List String) start, names.foldlM fs.step start = .ok stop →
      names.foldlM fs'.step start = .ok stop := by
    intro names
    induction names with
    | nil => exact fun start hnames => hnames
    | cons name names ih =>
      intro start hnames
      rw [List.foldlM_cons] at hnames ⊢
      cases hstep : fs.step start name with
      | error e => simp [hstep, bind, Except.bind] at hnames
      | ok next =>
        rw [hstep] at hnames
        rw [h.step hstep]
        exact ih next hnames
  rw [FileSystem.locate] at hlocate ⊢
  split at hlocate
  · simp at hlocate
  · rw [if_neg ‹_›, h.current]
    exact hsteps _ _ hlocate

end KeepsExcept

/-! ## Operations

An operation follows its paths, looks at what is there and then puts a node somewhere. Each of these
can fail, and the lemmas say what must have been the case if none did. From then on no operation is
taken apart any more. -/

/-- Two paths are the same place if both lead somewhere, and there. -/
theorem isSamePlace_eq_true {p q : Path} :
    fs.isSamePlace p q = true ↔ ∃ place, fs.locate p = .ok place ∧ fs.locate q = .ok place := by
  rw [isSamePlace]
  cases fs.locate p with
  | error e => simp
  | ok place =>
    cases fs.locate q with
    | error e => simp
    | ok other => simp [eq_comm]

/-- Reading succeeds exactly at files, along paths that do not end in a slash. -/
theorem read_eq_ok {p : Path} {content : String} :
    fs.read p = .ok content ↔
      ∃ place, fs.locate p = .ok place ∧ p.endsInSlash = false
        ∧ fs.at? place = some (.file content) := by
  rw [read, node]
  cases fs.locate p with
  | error e => simp [bind, Except.bind]
  | ok place =>
    simp only [bind, Except.bind, Except.ok.injEq, exists_eq_left']
    cases fs.at? place with
    | none => simp
    | some node =>
      cases node with
      | directory => simp
      | file other => cases p.endsInSlash <;> simp

/-- A file can be read as before if its place is none of those that changed. -/
theorem KeepsExcept.read (h : fs.KeepsExcept changed fs') {p : Path} {content : String}
    (hread : fs.read p = .ok content)
    (hplace : ∀ place, fs.locate p = .ok place → ¬ changed place) : fs'.read p = .ok content := by
  obtain ⟨place, hlocate, hslash, hat⟩ := read_eq_ok.1 hread
  exact read_eq_ok.2 ⟨place, h.locate hlocate, hslash,
    h.file place content (hplace place hlocate) hat⟩

/-- Paths that lead somewhere lead to one place if they did. -/
theorem KeepsExcept.isSamePlace_eq (h : fs.KeepsExcept changed fs') {p q : Path}
    {other : Location} (hp : fs.locate p = .ok place) (hq : fs.locate q = .ok other) :
    fs'.isSamePlace p q = fs.isSamePlace p q := by
  rw [isSamePlace, isSamePlace, hp, hq, h.locate hp, h.locate hq]

/-- Where there is nothing, nothing can be read. -/
theorem read_of_none {p : Path} (hlocate : fs.locate p = .ok place) (hat : fs.at? place = none) :
    fs.read p = .error .notFound := by
  simp only [read, node, hlocate, bind, Except.bind, hat]

/-- What is read from a path is read from every path to the same place. -/
theorem read_of_isSamePlace {p q : Path} {content : String} (hread : fs.read q = .ok content)
    (hsame : fs.isSamePlace p q = true) (hslash : p.endsInSlash = false) :
    fs.read p = .ok content := by
  obtain ⟨place, hplace, hother⟩ := isSamePlace_eq_true.1 hsame
  obtain ⟨stop, hlocate, -, hat⟩ := read_eq_ok.1 hread
  obtain rfl : stop = place := Except.ok.inj (hlocate.symm.trans hother)
  exact read_eq_ok.2 ⟨stop, hplace, hslash, hat⟩

/-- A change of a file puts it where the path leads. -/
theorem update_eq_ok {p : Path} {change : String → String}
    (h : fs.update p change = .ok fs') :
    ∃ stop content, fs.locate p = .ok stop ∧ p.endsInSlash = false
      ∧ fs.at? stop ≠ some .directory ∧ fs' = fs.put stop (.file (change content)) := by
  rw [update] at h
  cases hlocate : fs.locate p with
  | error e => simp [hlocate, bind, Except.bind] at h
  | ok stop =>
    simp only [hlocate, bind, Except.bind] at h
    split at h
    · simp at h
    · rename_i hslash
      split at h
      · simp at h
      · rename_i content hfile
        exact ⟨stop, content, rfl, by simpa using hslash, by simp [hfile],
          (Except.ok.inj h).symm⟩
      · rename_i hnone
        exact ⟨stop, "", rfl, by simpa using hslash, by simp [hnone], (Except.ok.inj h).symm⟩

/-- A file can be written where the path leads to no directory. -/
theorem write_of_locate {p : Path} (hlocate : fs.locate p = .ok place)
    (hslash : p.endsInSlash = false) (hplace : fs.at? place ≠ some .directory) (content : String) :
    fs.write p content = .ok (fs.put place (.file content)) := by
  rw [write, update, hlocate]
  simp only [bind, Except.bind, hslash, Bool.false_eq_true, if_false]
  split
  · exact absurd ‹_› hplace
  · rfl
  · rfl

/-- A file is moved where the path leads to no directory. -/
theorem rename_eq_ok {source target : Path} :
    fs.rename source target = .ok fs' ↔
      ∃ start stop content, fs.locate source = .ok start ∧ fs.locate target = .ok stop
        ∧ (isNaming source = true ∧ isNaming target = true)
        ∧ (source.endsInSlash = false ∧ target.endsInSlash = false)
        ∧ fs.at? start = some (.file content) ∧ fs.at? stop ≠ some .directory
        ∧ fs' = (fs.erase start).put stop (.file content) := by
  rw [rename]
  cases fs.locate source with
  | error e => simp [bind, Except.bind]
  | ok start =>
    cases fs.locate target with
    | error e => simp [bind, Except.bind]
    | ok stop =>
      simp only [bind, Except.bind, Except.ok.injEq, exists_and_left, exists_eq_left']
      constructor
      · -- The conditions come up one by one, in the order in which the operation looks at them.
        intro h
        split at h
        · simp at h
        · rename_i hnaming
          split at h
          · simp at h
          · simp at h
          · rename_i content hstart
            split at h
            · simp at h
            · rename_i hslash
              split at h
              · simp at h
              · refine ⟨by simpa using hnaming, by simpa using hslash, content, hstart, ‹_›,
                  (Except.ok.inj h).symm⟩
      · rintro ⟨⟨hsource, htarget⟩, ⟨hslash, hslash'⟩, content, hstart, hstop, rfl⟩
        simp only [hsource, htarget, hslash, hslash', hstart, Bool.not_true, Bool.or_self,
          Bool.false_eq_true, if_false]

/-- What is added to a file comes behind its content, whatever path it is read from. -/
theorem read_of_append {p q : Path} {content more : String} (h : fs.append q more = .ok fs')
    (hread : fs.read p = .ok content) (hsame : fs.isSamePlace p q = true) :
    fs'.read p = .ok (content ++ more) := by
  obtain ⟨place, hplace, hother⟩ := isSamePlace_eq_true.1 hsame
  obtain ⟨stop, hlocate, hslash, hat⟩ := read_eq_ok.1 hread
  obtain rfl : stop = place := Except.ok.inj (hlocate.symm.trans hplace)
  have hfree : fs.at? stop ≠ some .directory := by simp [hat]
  rw [append, update, hother] at h
  simp only [bind, Except.bind, hat] at h
  split at h
  · simp at h
  · obtain rfl := Except.ok.inj h
    have hkeeps : fs.KeepsExcept (fun _ => True) (fs.put stop (.file (content ++ more))) :=
      .put hfree (fun _ _ => trivial) _
    exact read_eq_ok.2 ⟨stop, hkeeps.locate hplace, hslash,
      at?_put_self fs _ (ne_nil_of_at? hfree)⟩

/-- A change of a file leaves all other places as they are. -/
theorem at?_of_update {p : Path} {change : String → String} (h : fs.update p change = .ok fs')
    (hplace : fs.locate p ≠ .ok place) : fs'.at? place = fs.at? place := by
  obtain ⟨stop, _, hlocate, -, -, rfl⟩ := update_eq_ok h
  exact at?_put_of_ne fs _ fun hsame => hplace (hsame ▸ hlocate)

/-- **What is written to a path is read back from it.** -/
theorem read_of_write {p : Path} {content : String} (h : fs.write p content = .ok fs') :
    fs'.read p = .ok content := by
  obtain ⟨stop, _, hlocate, hslash, hstop, rfl⟩ := update_eq_ok h
  have hkeeps : fs.KeepsExcept (fun _ => True) (fs.put stop (.file content)) :=
    .put hstop (fun _ _ => trivial) _
  exact read_eq_ok.2 ⟨stop, hkeeps.locate hlocate, hslash,
    at?_put_self fs _ (ne_nil_of_at? hstop)⟩

/-- What is moved changes no file but the one it was and the one it becomes. -/
theorem keepsExcept_rename {source target : Path} (h : fs.rename source target = .ok fs')
    (hsource : ∀ place, fs.locate source = .ok place → changed place)
    (htarget : ∀ place, fs.locate target = .ok place → changed place) :
    fs.KeepsExcept changed fs' := by
  obtain ⟨start, stop, content, hstart, hstop, -, -, hfile, hfree, rfl⟩ := rename_eq_ok.1 h
  exact .move (by simp [hfile]) hfree (hsource start hstart) (htarget stop hstop) _

/-- **What is moved to a path is read from it.** -/
theorem read_of_rename {source target : Path} {content : String}
    (h : fs.rename source target = .ok fs') (hread : fs.read source = .ok content) :
    fs'.read target = .ok content := by
  have hkeeps : fs.KeepsExcept (fun _ => True) fs' :=
    keepsExcept_rename h (fun _ _ => trivial) (fun _ _ => trivial)
  obtain ⟨start, stop, moved, hstart, hstop, -, ⟨-, hslash⟩, hfile, hfree, rfl⟩ := rename_eq_ok.1 h
  obtain ⟨place, hplace, -, hat⟩ := read_eq_ok.1 hread
  obtain rfl : place = start := Except.ok.inj (hplace.symm.trans hstart)
  obtain rfl : moved = content := by simpa [hat] using hfile.symm
  exact read_eq_ok.2 ⟨stop, hkeeps.locate hstop, hslash,
    at?_put_self _ _ (ne_nil_of_at? hfree)⟩

/-! ## Where paths lead

Every path of a run that has led somewhere goes on to lead there, by what was said above. So the
places of a list of paths can only become more while the run goes on, and changes to where some of
them led may be put down as changes to where they lead in the end. -/

/-- One of these paths leads to the place. -/
def LedTo (fs : FileSystem) (paths : List Path) (place : Location) : Prop :=
  ∃ p ∈ paths, fs.locate p = .ok place

/-- More paths lead to more places. -/
theorem LedTo.mono {paths more : List Path} (h : fs.LedTo paths place) (hpaths : paths ⊆ more) :
    fs.LedTo more place := by
  obtain ⟨p, hp, hlocate⟩ := h
  exact ⟨p, hpaths hp, hlocate⟩

/-- Paths that do not lead to the same place as another one do not lead where this does. -/
theorem not_ledTo_of_apart {p : Path} {paths : List Path} (hplace : fs.locate p = .ok place)
    (hapart : ∀ q ∈ paths, fs.isSamePlace p q = false) : ¬ fs.LedTo paths place := by
  rintro ⟨q, hq, hlocate⟩
  have hsame := isSamePlace_eq_true.2 ⟨place, hplace, hlocate⟩
  rw [hapart q hq] at hsame
  exact Bool.false_ne_true hsame

namespace KeepsExcept

variable {paths more : List Path}

/-- A place that paths led to is one that they lead to. -/
theorem ledTo (h : fs.KeepsExcept changed fs') (hplace : fs.LedTo paths place) :
    fs'.LedTo paths place := by
  obtain ⟨p, hp, hlocate⟩ := hplace
  exact ⟨p, hp, h.locate hlocate⟩

/-- What is changed where paths led before is changed where they lead afterwards. -/
theorem afterwards (h : fs.KeepsExcept (fs.LedTo paths) fs') :
    fs.KeepsExcept (fs'.LedTo paths) fs' :=
  h.mono fun _ hplace => h.ledTo hplace

/-- Changes where paths lead in the end are put together. The first set was taken in the middle, so
it is moved on to the last state before the two are compared. -/
theorem andThen (h : fs.KeepsExcept (fs'.LedTo paths) fs')
    (h' : fs'.KeepsExcept (fs''.LedTo more) fs'') (hpaths : paths ⊆ more) :
    fs.KeepsExcept (fs''.LedTo more) fs'' :=
  (h.mono fun _ hplace => (h'.ledTo hplace).mono hpaths).trans h'

end KeepsExcept

/-- A change of a file changes only the place where its path leads. -/
theorem keepsExcept_update {p : Path} {change : String → String}
    (h : fs.update p change = .ok fs') : fs.KeepsExcept (fs.LedTo [p]) fs' := by
  obtain ⟨stop, content, hlocate, -, hfree, rfl⟩ := update_eq_ok h
  exact .put hfree (fun _ _ => ⟨p, List.mem_singleton.2 rfl, hlocate⟩) _

/-- A directory is made where there was nothing, so no file counts as changed. -/
theorem keepsExcept_createDirectory {p : Path} (h : fs.createDirectory p = .ok fs') :
    fs.KeepsExcept changed fs' := by
  rw [createDirectory] at h
  cases hlocate : fs.locate p with
  | error e => simp [hlocate, bind, Except.bind] at h
  | ok stop =>
    simp only [hlocate, bind, Except.bind] at h
    split at h
    · simp at h
    · rename_i hnone
      rw [← Except.ok.inj h]
      exact .put (by simp [hnone]) (by simp [hnone]) _

/-- It is made, or something is there already and nothing happens. -/
theorem keepsExcept_ensureDirectory {p : Path} (h : ensureDirectory p fs = .ok () fs') :
    fs.KeepsExcept changed fs' := by
  rw [ensureDirectory] at h
  split at h
  · cases h
    exact keepsExcept_createDirectory ‹_›
  · split at h
    · cases h
      exact .refl fs changed
    · simp at h

/-- Directories are made where there is nothing. The induction is on the bound for how many of them
are above the path. -/
theorem keepsExcept_createDirectories {p : Path} (h : createDirectories p fs = .ok () fs') :
    fs.KeepsExcept changed fs' := by
  rw [createDirectories] at h
  generalize p.text.length + 1 = fuel at h
  induction fuel generalizing p fs fs' with
  | zero =>
    rw [createDirectoriesWithin] at h
    cases h
  | succ fuel ih =>
    rw [createDirectoriesWithin] at h
    split at h
    · cases h
      exact .refl fs changed
    · dsimp only at h
      split at h
      · obtain ⟨_, made, habove, hlast⟩ := exists_of_bind_ok h
        exact (ih habove).trans (keepsExcept_ensureDirectory hlast)
      · exact keepsExcept_ensureDirectory h

end FileSystem
end ModuleMerge
