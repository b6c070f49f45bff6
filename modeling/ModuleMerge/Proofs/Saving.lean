import ModuleMerge.Proofs.Reports

/-!
# What saving a report leaves behind

A report is first written to a file beside the one asked for and then moved, so that no reader finds
a part of it. One would like saving to be all or nothing as well. It is not, for two reasons: when
the file cannot be moved, it stays beside; and it is written whether or not there was a file of this
name before.

To say so for every file system, all that saving may do to one has to be described, failures
included. A run of the operations stops at the first that fails, and what was done before stays
done. So `EndsIn` is used for the state in which an action ends, in whichever way, and the laws for
actions that are put together follow from it.

Saving first makes the directories above the path. That may fail halfway, with some of them made,
and it may succeed before the rest fails. Directories are no loss, but they are there, so they are
allowed for everywhere: a place is as it was, or it had nothing and is a directory now, and a path
above the report's leads to it. All else is changes of files at one place or at two.

Whether the file beside the path and the path itself are two places has to be shown. Their last
names have different lengths, and a path whose last name can be given to a file leads to a place of
that name. Paths that end in dots or slashes make this more work than it sounds.

* `FileSystem.MakesExcept` says that nothing is changed but some places, and that directories may
  have been made.
* `MergeReport.Saving` lists the ways in which saving can end, with everything that it leaves, and
  `MergeReport.saving_save` says that these are all.
* `MergeReport.AllOrNothing` is what one would like, and `MergeReport.allOrNothing_save_iff` says
  when it is so.
-/

set_option autoImplicit false

namespace ModuleMerge

open Acting

/-! ## Ends of actions

What an action gives, or why it failed, is left aside where only the state matters. -/

/-- A state in which an action ends, well or not. -/
def Acting.EndsIn {ε σ α : Type} (x : EStateM ε σ α) (s t : σ) : Prop :=
  (∃ a, x s = .ok a t) ∨ ∃ e, x s = .error e t

/-- Two steps end where the first one fails, or where the second one ends. -/
theorem Acting.EndsIn.of_bind {ε σ α β : Type} {x : EStateM ε σ α} {f : α → EStateM ε σ β} {s t : σ}
    (h : EndsIn (x >>= f) s t) :
    (∃ e, x s = .error e t) ∨ ∃ a between, x s = .ok a between ∧ EndsIn (f a) between t := by
  cases hx : x s with
  | ok a between =>
    rw [EndsIn, bind_ok hx] at h
    exact .inr ⟨a, between, rfl, h⟩
  | error e between =>
    rw [EndsIn, bind_error hx] at h
    obtain ⟨_, h⟩ | ⟨_, h⟩ := h
    · cases h
    · cases h
      exact .inl ⟨_, rfl⟩

/-! ## Paths above a path -/

/-- The paths above a path: what is left of it when names are taken off. -/
inductive Path.Above (p : Path) : Path → Prop
  | parent {q : Path} (h : p.parent? = some q) : p.Above q
  | up {q q' : Path} (h : p.Above q) (hparent : q.parent? = some q') : p.Above q'

namespace FileSystem

variable {fs fs' fs'' : FileSystem} {room : Path → Prop} {changed : Location → Prop}
  {place : Location}

/-- Nothing is changed but at some places, and but for directories that are made where there was
nothing and where some paths lead. -/
structure MakesExcept (fs : FileSystem) (room : Path → Prop) (changed : Location → Prop)
    (fs' : FileSystem) : Prop where
  current : fs'.current = fs.current
  same_or_made : ∀ place, ¬ changed place → fs'.at? place = fs.at? place
    ∨ fs.at? place = none ∧ fs'.at? place = some .directory
      ∧ ∃ q, room q ∧ fs'.locate q = .ok place

/-- No file is made, changed or taken away. -/
theorem MakesExcept.file_iff (h : fs.MakesExcept room changed fs') (hplace : ¬ changed place)
    {content : String} :
    fs'.at? place = some (.file content) ↔ fs.at? place = some (.file content) := by
  obtain hsame | ⟨hnone, hmade, -⟩ := h.same_or_made place hplace
  · rw [hsame]
  · simp [hnone, hmade]

/-- Nothing is changed, but for directories that are made where some paths lead. -/
abbrev Makes (fs : FileSystem) (room : Path → Prop) (fs' : FileSystem) : Prop :=
  fs.MakesExcept room (fun _ => False) fs'

namespace Makes

/-- Nothing may have been made at all. -/
theorem refl (fs : FileSystem) (room : Path → Prop) : fs.Makes room fs :=
  ⟨rfl, fun _ _ => .inl rfl⟩

/-- Making directories keeps all directories and all files. -/
theorem keepsExcept (h : fs.Makes room fs') : fs.KeepsExcept changed fs' where
  current := h.current
  directory place hplace := by
    obtain hsame | ⟨hnone, -⟩ := h.same_or_made place id
    · exact hsame.trans hplace
    · rw [hplace] at hnone
      contradiction
  file place content _ hplace := by
    obtain hsame | ⟨hnone, -⟩ := h.same_or_made place id
    · exact hsame.trans hplace
    · rw [hplace] at hnone
      contradiction

/-- Changes elsewhere leave what was made. -/
theorem andThen (h : fs.Makes room fs') (hkeeps : fs'.KeepsExcept changed fs'')
    (hsame : ∀ place, ¬ changed place → fs''.at? place = fs'.at? place) :
    fs.MakesExcept room changed fs'' where
  current := hkeeps.current.trans h.current
  same_or_made place hplace := by
    rw [hsame place hplace]
    obtain heq | ⟨hnone, hmade, q, hq, hlocate⟩ := h.same_or_made place id
    · exact .inl heq
    · exact .inr ⟨hnone, hmade, q, hq, hkeeps.locate hlocate⟩

/-- One after the other. What was made first is a directory still, and the path that led to it leads
there still. -/
theorem trans (h : fs.Makes room fs') (h' : fs'.Makes room fs'') : fs.Makes room fs'' where
  current := h'.current.trans h.current
  same_or_made place _ := by
    obtain heq | ⟨hnone, hmade, hled⟩ := h'.same_or_made place id
    · rw [heq]
      obtain heq' | ⟨hnone, hmade, q, hq, hlocate⟩ := h.same_or_made place id
      · exact .inl heq'
      · have hkeeps : fs'.KeepsExcept (fun _ => False) fs'' := h'.keepsExcept
        exact .inr ⟨hnone, hmade, q, hq, hkeeps.locate hlocate⟩
    · obtain heq' | ⟨-, hmade', -⟩ := h.same_or_made place id
      · exact .inr ⟨heq' ▸ hnone, hmade, hled⟩
      · rw [hmade'] at hnone
        contradiction

/-- Where there is no directory afterwards, nothing has changed. -/
theorem at?_eq (h : fs.Makes room fs') (hplace : fs'.at? place ≠ some .directory) :
    fs'.at? place = fs.at? place :=
  (h.same_or_made place id).resolve_right fun hmade => hplace hmade.2.1

end Makes

/-! ## Making directories

The paths that may be made room for are a parameter, since the induction goes up from the path and
each step is at another one. All that is asked is that whatever is above such a path is one too. -/

/-- One directory is made where its path leads, and there was nothing. -/
theorem makes_createDirectory {p : Path} (hp : room p) (h : fs.createDirectory p = .ok fs') :
    fs.Makes room fs' := by
  have hkeeps : fs.KeepsExcept (fun _ => False) fs' := keepsExcept_createDirectory h
  rw [createDirectory] at h
  cases hlocate : fs.locate p with
  | error e => simp [hlocate, bind, Except.bind] at h
  | ok stop =>
    simp only [hlocate, bind, Except.bind] at h
    split at h
    · simp at h
    · rename_i hnone
      obtain rfl := Except.ok.inj h
      have hfree : fs.at? stop ≠ some .directory := by simp [hnone]
      refine ⟨rfl, fun place _ => ?_⟩
      rw [at?_put fs stop place _ (ne_nil_of_at? hfree)]
      split
      · subst_vars
        exact .inr ⟨hnone, rfl, p, hp, hkeeps.locate hlocate⟩
      · exact .inl rfl

/-- Whether it was made, or was there, or there is something else in its place. -/
theorem makes_ensureDirectory {p : Path} (hp : room p) (h : EndsIn (ensureDirectory p) fs fs') :
    fs.Makes room fs' := by
  rw [EndsIn, ensureDirectory] at h
  split at h
  · obtain ⟨_, h⟩ | ⟨_, h⟩ := h
    · cases h
      exact makes_createDirectory hp ‹_›
    · cases h
  · split at h
    all_goals
      obtain ⟨_, h⟩ | ⟨_, h⟩ := h
      all_goals
        cases h
        try exact .refl fs room

/-- **Making directories makes directories only**, also if it fails on the way. -/
theorem makes_createDirectories {p : Path} (hp : room p)
    (hup : ∀ q q', room q → q.parent? = some q' → room q')
    (h : EndsIn (createDirectories p) fs fs') : fs.Makes room fs' := by
  rw [createDirectories] at h
  generalize p.text.length + 1 = fuel at h
  induction fuel generalizing p fs fs' with
  | zero =>
    obtain ⟨_, h⟩ | ⟨_, h⟩ := h
    · cases h
    · cases h
      exact .refl fs room
  | succ fuel ih =>
    rw [EndsIn, createDirectoriesWithin] at h
    split at h
    · obtain ⟨_, h⟩ | ⟨_, h⟩ := h
      · cases h
        exact .refl fs room
      · cases h
    · dsimp only at h
      split at h
      · rename_i parent _ hparent
        -- The directories above come first: they fail, or they are made and the last one is tried.
        have habove := hup p _ hp ‹_›
        obtain ⟨e, hfails⟩ | ⟨_, made, hmade, hlast⟩ := EndsIn.of_bind h
        · exact ih habove (.inr ⟨e, hfails⟩)
        · exact (ih habove (.inl ⟨_, hmade⟩)).trans (makes_ensureDirectory hp hlast)
      · exact makes_ensureDirectory hp h

end FileSystem

/-! ## Names of files

The name beside a path is made from its file name, which is found from the end of the path with dots
and empty names passed over. The file system follows all names of the path in turn. For paths to
which a file can be moved, the two agree on which name is the last. -/

namespace Path

/-- The last step of a path is its last name that is not empty. -/
theorem getLast?_steps (p : Path) :
    p.steps.getLast? = ((segments p.text.toList).reverse.find? (· ≠ [])).map String.ofList := by
  rw [steps, List.getLast?_map, ← List.head?_reverse, ← List.filter_reverse, List.head?_filter]

/-- Of the names of a path, the last one that is not empty is also the last one that counts, unless
it is a dot. -/
theorem head?_dropWhile_isIdle {names : List (List Char)} {name : List Char} (hdot : name ≠ ['.'])
    (h : names.find? (· ≠ []) = some name) : (names.dropWhile isIdle).head? = some name := by
  induction names with
  | nil => contradiction
  | cons head names ih =>
    by_cases hempty : head = []
    · rw [List.find?_cons_of_neg (by simpa using hempty)] at h
      rw [List.dropWhile_cons_of_pos (by simp [isIdle, hempty])]
      exact ih h
    · rw [List.find?_cons_of_pos (by simpa using hempty)] at h
      obtain rfl := Option.some.inj h
      rw [List.dropWhile_cons_of_neg (by simp [isIdle, hempty, hdot]), List.head?_cons]

/-- The last name of a path that is not a dot stands behind the head of the path. The head is a
slash or a dot with one, so no name in it could be meant. -/
theorem find?_segments_drop {p : Path} {name : List Char} (hdot : name ≠ ['.'])
    (h : (segments p.text.toList).reverse.find? (· ≠ []) = some name) :
    (segments (p.text.toList.drop p.head.length)).reverse.find? (· ≠ []) = some name := by
  have hslash : ∀ front rest : List Char, front = [] ∨ front = ['.'] →
      (segments (front ++ '/' :: rest)).reverse.find? (· ≠ []) = some name →
      (segments rest).reverse.find? (· ≠ []) = some name := by
    intro front rest hfront hlast
    have hparts : Text.parts '/' front = [front] := by
      rcases hfront with rfl | rfl
      · rfl
      · rfl
    rw [segments, Text.parts_append, hparts, List.reverse_append, List.find?_append] at hlast
    rcases Option.or_eq_some_iff.1 hlast with hrest | ⟨-, hfirst⟩
    · exact hrest
    · have hmem : name = front := by simpa using List.mem_of_find?_eq_some hfirst
      have hne : name ≠ [] := by simpa using List.find?_some hfirst
      rcases hfront with rfl | rfl
      · exact absurd hmem hne
      · exact absurd hmem hdot
  -- The head of a path is a slash, a dot before a slash, a dot alone, or nothing.
  rw [head]
  split
  · rename_i rest hcs
    rw [hcs] at h ⊢
    exact hslash [] rest (.inl rfl) h
  · rename_i rest hcs
    rw [hcs] at h ⊢
    have hrest := hslash ['.'] rest (.inr rfl) h
    show (Text.parts '/' ([] ++ '/' :: rest)).reverse.find? (· ≠ []) = some name
    rw [Text.parts_append, List.reverse_append, List.find?_append]
    exact Option.or_eq_some_iff.2 (.inl hrest)
  · rename_i hcs
    rw [hcs] at h
    exact absurd (Option.some.inj h).symm hdot
  · exact h

/-- The last name of a path is its file name, if it can be given to a file. -/
theorem fileName?_of_isNaming {p : Path} (h : FileSystem.isNaming p = true) :
    p.fileName? = p.steps.getLast? := by
  rw [FileSystem.isNaming, getLast?_steps] at h
  rw [getLast?_steps]
  cases hlast : (segments p.text.toList).reverse.find? (· ≠ []) with
  | none =>
    rw [hlast] at h
    contradiction
  | some name =>
    rw [hlast] at h
    obtain ⟨hdot, hdots⟩ : String.ofList name ≠ "." ∧ String.ofList name ≠ ".." := by
      simpa using h
    have hhead : p.namesFromEnd.head? = some name :=
      head?_dropWhile_isIdle (by rintro rfl; exact hdot rfl)
        (find?_segments_drop (by rintro rfl; exact hdot rfl) hlast)
    rw [fileName?, hhead]
    exact if_neg (by rintro rfl; exact hdots rfl)

end Path

namespace MergeReport

variable {r : MergeReport} {p : Path} {pretty : Bool} {fs fs' : FileSystem}

/-- The file beside a path that a file can be at has another name, and so it is at another place. -/
theorem ne_of_locate_temporaryPath {start stop : Location} (hnaming : FileSystem.isNaming p = true)
    (hstart : fs.locate (temporaryPath p) = .ok start) (hstop : fs.locate p = .ok stop) :
    start ≠ stop := by
  rintro rfl
  have hlast := (FileSystem.getLast?_of_locate (isNaming_temporaryPath p) hstart).symm.trans
    (FileSystem.getLast?_of_locate hnaming hstop)
  rw [getLast?_steps_temporaryPath, ← Path.fileName?_of_isNaming hnaming] at hlast
  cases hname : p.fileName? with
  | none =>
    rw [hname] at hlast
    exact absurd hlast (Option.some_ne_none _)
  | some name =>
    rw [hname, Option.getD_some] at hlast
    have hlength := congrArg String.length (Option.some.inj hlast)
    rw [String.length_append, String.length_append, show ".".length = 1 from rfl,
      show ".tmp".length = 4 from rfl] at hlength
    omega

/-! ## Ways to end

The three ways are told apart by how far the operations got. Making directories and writing the file
beside are the first two, and they leave no file behind if they fail. After that there is the file
beside, and all depends on the last one. -/

/-- How saving a report can end, and what it leaves. -/
inductive Saving (r : MergeReport) (p : Path) (pretty : Bool) (fs : FileSystem) :
    EStateM.Result Failure FileSystem Unit → Prop
  /-- Nothing is written: a directory cannot be made, or the file beside the path cannot be. -/
  | unwritten {f : Failure} {fs' : FileSystem}
    (hearly : f.occasion ≠ some (.movingReport, p)) (hmakes : fs.Makes p.Above fs') :
    Saving r p pretty fs (.error f fs')
  /-- The report is in the file beside the path, and cannot be moved from there. -/
  | unmoved {e : FileError} {start : Location} {fs' : FileSystem}
    (hstart : fs'.locate (temporaryPath p) = .ok start)
    (hbefore : fs.at? start ≠ some .directory)
    (hafter : fs'.at? start = some (.file (r.text pretty)))
    (hmakes : fs.MakesExcept p.Above (· = start) fs') :
    Saving r p pretty fs (.error (.during .movingReport p (.file e)) fs')
  /-- The report is in its file, and there is none beside. -/
  | saved {start stop : Location} {fs' : FileSystem}
    (hstart : fs'.locate (temporaryPath p) = .ok start) (hstop : fs'.locate p = .ok stop)
    (hne : start ≠ stop) (hbefore : fs.at? start ≠ some .directory)
    (hafter : fs'.at? start = none) (hreport : fs'.at? stop = some (.file (r.text pretty)))
    (hmakes : fs.MakesExcept p.Above (fun place => place = start ∨ place = stop) fs') :
    Saving r p pretty fs (.ok () fs')

/-- Making room for a report makes directories above its path. -/
theorem makes_makeRoom (h : EndsIn (makeRoom p) fs fs') : fs.Makes p.Above fs' := by
  have hnothing : EndsIn (pure () : FileAction Unit) fs fs' → fs.Makes p.Above fs' := by
    rintro (⟨_, h⟩ | ⟨_, h⟩)
    · cases h
      exact .refl fs p.Above
    · cases h
  rw [makeRoom] at h
  cases hparent : p.parent? with
  | none =>
    rw [hparent] at h
    exact hnothing h
  | some directory =>
    simp only [hparent, Option.elim_some] at h
    split at h
    · exact hnothing h
    · rw [EndsIn, FileAction.createDirectories, EStateM.adaptExcept] at h
      refine FileSystem.makes_createDirectories (.parent hparent) (fun _ _ => .up) ?_
      split at h
      · rename_i hfails
        obtain ⟨_, h⟩ | ⟨_, h⟩ := h
        · cases h
        · cases h
          exact .inr ⟨_, hfails⟩
      · rename_i hmade
        obtain ⟨_, h⟩ | ⟨_, h⟩ := h
        · cases h
          exact .inl ⟨_, hmade⟩
        · cases h

/-- A failure to make a directory does not say what it was made for. -/
theorem occasion_makeRoom {f : Failure} (h : makeRoom p fs = .error f fs') :
    f.occasion = none := by
  rw [makeRoom] at h
  cases hparent : p.parent? with
  | none =>
    rw [hparent] at h
    cases h
  | some directory =>
    simp only [hparent, Option.elim_some] at h
    split at h
    · cases h
    · rw [FileAction.createDirectories, EStateM.adaptExcept] at h
      split at h
      · cases h
        rfl
      · cases h

/-- Once the report is beside its path, it stays there or is moved. -/
theorem saving_of_written {made written : FileSystem} (hmakes : fs.Makes p.Above made)
    (hwrite : made.write (temporaryPath p) (r.text pretty) = .ok written) :
    Saving r p pretty fs (FileAction.ofOperation (fun e => .during .movingReport p (.file e))
      (·.rename (temporaryPath p) p) written) := by
  obtain ⟨start, _, hstart, -, hfree, rfl⟩ := FileSystem.update_eq_ok hwrite
  have hroot := FileSystem.ne_nil_of_at? hfree
  have hbefore : fs.at? start ≠ some .directory := hmakes.at?_eq hfree ▸ hfree
  have hwritten : made.KeepsExcept (fun place => place = start)
      (made.put start (.file (r.text pretty))) := by
    refine .put hfree (fun _ _ => ?_) _
    rfl
  have hput := FileSystem.at?_put_self made (.file (r.text pretty)) hroot
  cases hmove : (made.put start (.file (r.text pretty))).rename (temporaryPath p) p with
  | error e =>
    rw [FileAction.ofOperation, hmove]
    exact .unmoved (hwritten.locate hstart) hbefore hput
      (hmakes.andThen hwritten fun place hplace => FileSystem.at?_put_of_ne made _ hplace)
  | ok fs' =>
    -- The two places are different, so what is erased at one is not what is put at the other.
    rw [move_eq_ok.2 hmove]
    obtain ⟨start', stop, content, hstart', hstop, ⟨-, hnaming⟩, -, hfile, hfree', rfl⟩ :=
      FileSystem.rename_eq_ok.1 hmove
    -- What is moved is what was written.
    obtain rfl : start' = start := Except.ok.inj (hstart'.symm.trans (hwritten.locate hstart))
    obtain rfl : content = r.text pretty := by simpa [hput] using hfile.symm
    have hne := ne_of_locate_temporaryPath hnaming hstart' hstop
    have hmoved := FileSystem.keepsExcept_rename hmove
      (fun place hplace => Or.inl (Except.ok.inj (hplace.symm.trans hstart')))
      (fun place hplace => Or.inr (Except.ok.inj (hplace.symm.trans hstop)))
    refine .saved (hmoved.locate hstart') (hmoved.locate hstop) hne hbefore ?_ ?_
      (hmakes.andThen ((hwritten.mono fun _ => Or.inl).trans hmoved) fun place hplace => ?_)
    · rw [FileSystem.at?_put_of_ne _ _ hne, FileSystem.at?_erase_self _ hroot]
    · exact FileSystem.at?_put_self _ _ (FileSystem.ne_nil_of_at? hfree')
    · obtain ⟨hne, hne'⟩ := not_or.1 hplace
      rw [FileSystem.at?_put_of_ne _ _ hne', FileSystem.at?_erase_of_ne _ hne,
        FileSystem.at?_put_of_ne _ _ hne]

/-- **Saving ends in one of three ways.** Each operation is looked at in the state that the one
before it has left. -/
theorem saving_save (r : MergeReport) (p : Path) (pretty : Bool) (fs : FileSystem) :
    Saving r p pretty fs (r.save p pretty fs) := by
  rw [save_eq]
  cases hmade : makeRoom p fs with
  | error f made =>
    rw [bind_error hmade]
    exact .unwritten (by simp [occasion_makeRoom hmade]) (makes_makeRoom (.inr ⟨f, hmade⟩))
  | ok _ made =>
    have hmakes := makes_makeRoom (.inl ⟨_, hmade⟩)
    rw [bind_ok hmade]
    cases hwrite : made.write (temporaryPath p) (r.text pretty) with
    | error e =>
      have hfails : FileAction.write .writingReport (temporaryPath p) (r.text pretty) made
          = .error (.during .writingReport (temporaryPath p) (.file e)) made := by
        rw [FileAction.write, FileAction.ofOperation, hwrite]
      rw [bind_error hfails]
      exact .unwritten (by simp [Failure.during]) hmakes
    | ok written =>
      rw [bind_ok (write_eq_ok.2 hwrite)]
      exact saving_of_written hmakes hwrite

/-! ## All or nothing

What one would like is stated with directories set aside. For each of the three ways to end it is
seen what this means of the file beside the path. -/

/-- All of a report was saved and nothing else was done, or nothing was. If saving went through, the
report is in its file, and everywhere else is what was there before, but for directories above the
path. If it failed, the files are those that were there before. -/
def AllOrNothing (r : MergeReport) (p : Path) (pretty : Bool) (fs : FileSystem) :
    EStateM.Result Failure FileSystem Unit → Prop
  | .ok _ fs' => ∃ stop, fs'.locate p = .ok stop ∧ fs'.at? stop = some (.file (r.text pretty))
    ∧ fs.MakesExcept p.Above (· = stop) fs'
  | .error _ fs' => ∀ place content,
    fs'.at? place = some (.file content) ↔ fs.at? place = some (.file content)

/-- **When saving is all or nothing.** Saving ends in one of three ways: nothing is written, or the
report stays in the file beside the path, or it is in its own file and there is none beside. So it
is all or nothing exactly if there was no file beside the path before a report was saved, and if
a report that cannot be moved was already in the file beside the path. -/
theorem save_all_or_nothing (r : MergeReport) (p : Path) (pretty : Bool) (fs : FileSystem) :
    let result := r.save p pretty fs
    Saving r p pretty fs result
      ∧ (AllOrNothing r p pretty fs result ↔
        (∀ fs' start, result = .ok () fs' → fs'.locate (temporaryPath p) = .ok start →
          fs.at? start = none)
        ∧ ∀ f fs' start, result = .error f fs' → f.occasion = some (.movingReport, p) →
          fs'.locate (temporaryPath p) = .ok start →
          fs.at? start = some (.file (r.text pretty))) := by
  intro result
  have hsaving : Saving r p pretty fs result := saving_save r p pretty fs
  refine ⟨hsaving, ?_⟩
  generalize result = ended at hsaving ⊢
  cases hsaving with
  | unwritten hearly hmakes =>
    -- Nothing happened to any file, and both conditions are about later failures.
    refine iff_of_true (fun place content => hmakes.file_iff id) ⟨nofun, ?_⟩
    rintro f _ _ ⟨⟩ hlate
    exact absurd hlate hearly
  | @unmoved e start fs' hstart hbefore hafter hmakes =>
    constructor
    · intro hsame
      refine ⟨nofun, ?_⟩
      rintro _ _ start' ⟨⟩ - hstart'
      obtain rfl := Except.ok.inj (hstart.symm.trans hstart')
      exact (hsame _ _).1 hafter
    · rintro ⟨-, hsame⟩ place content
      by_cases hplace : place = start
      · rw [hplace, hafter, hsame _ _ _ rfl rfl hstart]
      · exact hmakes.file_iff hplace
  | @saved start stop fs' hstart hstop hne hbefore hafter hreport hmakes =>
    constructor
    · rintro ⟨stop', hstop', -, honly⟩
      obtain rfl := Except.ok.inj (hstop.symm.trans hstop')
      refine ⟨?_, fun _ _ _ hfailed => by cases hfailed⟩
      rintro _ start' ⟨⟩ hstart'
      obtain rfl := Except.ok.inj (hstart.symm.trans hstart')
      obtain hsame | ⟨hnone, -⟩ := honly.same_or_made start hne
      · exact hsame.symm.trans hafter
      · exact hnone
    · rintro ⟨hnothing, -⟩
      refine ⟨stop, hstop, hreport, hmakes.current, fun place hplace => ?_⟩
      by_cases hplace' : place = start
      · rw [hplace', hafter, hnothing _ _ rfl hstart]
        exact .inl rfl
      · exact hmakes.same_or_made place (not_or.2 ⟨hplace', hplace⟩)

/-- A report that cannot take the place of a directory stays beside it. And a file that happens to
have the name of the file beside is lost. -/
theorem save_leaves_file :
    let r := sampleReport none
    let taken : FileSystem := ⟨[], [(["logs"], .directory)]⟩
    let named : FileSystem := ⟨[], [([".r.json.tmp"], .file "notes")]⟩
    (∃ f, r.save ⟨"logs"⟩ true taken
        = .error f (taken.put [".logs.tmp"] (.file (r.text true))))
      ∧ ¬ AllOrNothing r ⟨"logs"⟩ true taken (r.save ⟨"logs"⟩ true taken)
      ∧ r.save ⟨"r.json"⟩ true named = .ok () ⟨[], [(["r.json"], .file (r.text true))]⟩
      ∧ ¬ AllOrNothing r ⟨"r.json"⟩ true named (r.save ⟨"r.json"⟩ true named) := by
  intro r taken named
  have hfails : r.save ⟨"logs"⟩ true taken
      = .error (.during .movingReport ⟨"logs"⟩ (.file .isDirectory))
        (taken.put [".logs.tmp"] (.file (r.text true))) := by
    rfl
  have hsaves : r.save ⟨"r.json"⟩ true named
      = .ok () ⟨[], [(["r.json"], .file (r.text true))]⟩ := by
    rfl
  refine ⟨⟨_, hfails⟩, fun hnothing => ?_, hsaves, fun hall => ?_⟩
  · rw [hfails] at hnothing
    have hleft := (hnothing [".logs.tmp"] _).1 (FileSystem.at?_put_self taken _ (by decide))
    contradiction
  · rw [hsaves] at hall
    obtain ⟨stop, hstop, -, honly⟩ := hall
    obtain rfl : ["r.json"] = stop := Except.ok.inj hstop
    obtain hsame | ⟨hnone, -⟩ := honly.same_or_made [".r.json.tmp"] (by decide)
    · contradiction
    · contradiction

end MergeReport

end ModuleMerge
