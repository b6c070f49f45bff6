import ModuleMerge.Proofs.Replay
import ModuleMerge.Proofs.Reports

/-!
# What logging changes

Every step of a run may log events. The lines go to a file, and they are printed apart from the
output. So between any two steps that write results the log file can grow, whatever else that file
is. Nothing else is changed.

A run has many places at which something is logged, and which events pass the filter depends on
settings, on a variable from outside and on what was found. None of this is of interest for the
results. So a step that logs is described by a frame: it may add to the log file, it may print, and
all else is as before. Frames of steps that follow one another are put together, and then a whole
run between two operations on files is one frame, however many events it has.

The frame speaks of the place where the log file is after the step. The path may have led nowhere
before the log was opened, and that a place keeps its file can only be said of places apart from it.

* `Log.Adds` is what becomes of the files when a text is logged, and `Logged` what logging may
  change of a session.
* `Opened` is what starting the log does.
* `Log.movedOver` is the log after a file was moved, maybe over its own.
* `locate_logFileOf_ne` keeps the log file apart from the file that a report is first written to.
-/

set_option autoImplicit false

namespace ModuleMerge
namespace CommandLine

open Acting

/-! ## The log

There are two cases: nothing is to be added, or it is appended to the log file. Without a log file
the text is dropped, and an empty text makes no difference to a file that is there. -/

/-- What becomes of the files when a text is added to the log file. -/
def Log.Adds (log : Log) (text : String) (fs fs' : FileSystem) : Prop :=
  ((log.file = none ∨ text = "") ∧ fs' = fs) ∨ ∃ file ∈ log.file, fs.append file text = .ok fs'

namespace Log.Adds

variable {log : Log} {text content : String} {fs fs' : FileSystem} {p q : Path} {place : Location}

/-- All directories stay, and all files but the log. -/
theorem keepsExcept (h : log.Adds text fs fs') :
    fs.KeepsExcept (fs.LedTo log.file.toList) fs' := by
  obtain ⟨-, rfl⟩ | ⟨file, hfile, happend⟩ := h
  · exact .refl _ _
  · exact (FileSystem.keepsExcept_update happend).mono fun _ hplace =>
      hplace.mono (by simpa using hfile)

/-- A place to which the log's path does not lead is as it was. -/
theorem at?_eq (h : log.Adds text fs fs') (hplace : ∀ file ∈ log.file, fs.locate file ≠ .ok place) :
    fs'.at? place = fs.at? place := by
  obtain ⟨-, rfl⟩ | ⟨file, hfile, happend⟩ := h
  · rfl
  · exact FileSystem.at?_of_update happend (hplace file hfile)

/-- What is added to the log file comes behind its content. -/
theorem read (h : log.Adds text fs fs') (hfile : q ∈ log.file) (hread : fs.read p = .ok content)
    (hsame : fs.isSamePlace p q = true) : fs'.read p = .ok (content ++ text) := by
  obtain ⟨hnothing, rfl⟩ | ⟨file, hsome, happend⟩ := h
  · rcases hnothing with hnone | rfl
    · rw [hnone] at hfile
      contradiction
    · rwa [String.append_empty]
  · obtain rfl := Option.mem_unique hfile hsome
    exact FileSystem.read_of_append happend hread hsame

end Log.Adds

/-- The lines of events, as far as they are logged. -/
def loggedLines (filter : EventFilter) (events : List Event) : String :=
  String.join ((events.filter filter.passes).map Event.line)

theorem loggedLines_cons (filter : EventFilter) (e : Event) (events : List Event) :
    loggedLines filter (e :: events) = loggedLines filter [e] ++ loggedLines filter events := by
  rw [loggedLines, loggedLines, loggedLines, List.filter_cons, List.filter_cons]
  cases filter.passes e <;> simp

/-- The rules that the log follows: those from outside if all of them can be read. -/
def rulesFor (filter : Option String) (settings : LoggingSettings) : String :=
  (filter.filter fun text => (EventFilter.warnings text).isEmpty).getD settings.filter

/-- The file that the log is added to. -/
def logFileOf (settings : LoggingSettings) : Option Path :=
  settings.directory.map fun directory => directory.join ⟨"declmerge.log"⟩

/-- The log file is never the file that a report is written to before it is moved: the name of one
starts with a letter, and that of the other with a dot. -/
theorem locate_logFileOf_ne {settings : LoggingSettings} {fs : FileSystem} {file p : Path}
    {place : Location} (hfile : file ∈ logFileOf settings)
    (hplace : fs.locate (MergeReport.temporaryPath p) = .ok place) :
    fs.locate file ≠ .ok place := by
  intro hlocate
  obtain ⟨directory, -, rfl⟩ := Option.map_eq_some_iff.1 hfile
  have hlast : (directory.join ⟨"declmerge.log"⟩).steps.getLast? = some "declmerge.log" :=
    directory.getLast?_steps_join (by decide) (by decide)
  have hnaming : FileSystem.isNaming (directory.join ⟨"declmerge.log"⟩) = true := by
    rw [FileSystem.isNaming, hlast]
    decide
  have hname := FileSystem.getLast?_of_locate hnaming hlocate
  rw [FileSystem.getLast?_of_locate (MergeReport.isNaming_temporaryPath p) hplace,
    MergeReport.getLast?_steps_temporaryPath, hlast] at hname
  have hchars := congrArg String.toList (Option.some.inj hname)
  rw [String.toList_append, String.toList_append] at hchars
  exact absurd (congrArg List.head? hchars) (by simp)

section

variable {s t : Session}

/-! ## What steps change

Steps are taken apart at their binds, down to the operation on the file system, and the cases in
which one of them fails are out, since only steps that end well are looked at. -/

/-- An action on files changes nothing else of a session. -/
theorem exists_of_onFiles {α : Type} {action : FileAction α} {a : α}
    (h : Step.onFiles action s = .ok a t) :
    ∃ files, action s.files = .ok a files ∧ t = { s with files } := by
  rw [Step.onFiles] at h
  cases haction : action s.files with
  | ok b files =>
    rw [haction] at h
    cases h
    exact ⟨files, rfl, rfl⟩
  | error e files =>
    rw [haction] at h
    simp at h

/-- A line is added to the log file, if there is one. -/
theorem exists_of_logLine {line : String} (h : Step.logLine line s = .ok () t) :
    ∃ files, t = { s with files } ∧ ((s.log.file = none ∧ files = s.files)
      ∨ ∃ file ∈ s.log.file, s.files.append file line = .ok files) := by
  rw [Step.logLine] at h
  obtain ⟨_, _, hget, h⟩ := exists_of_bind_ok h
  cases hget
  cases hfile : s.log.file with
  | none =>
    simp only [hfile] at h
    cases h
    exact ⟨s.files, rfl, .inl ⟨rfl, rfl⟩⟩
  | some file =>
    simp only [hfile] at h
    obtain ⟨files, happend, rfl⟩ := exists_of_onFiles h
    rw [FileAction.ofOperation] at happend
    cases hupdate : s.files.append file line with
    | error e => simp [hupdate] at happend
    | ok made =>
      simp only [hupdate] at happend
      cases happend
      exact ⟨_, rfl, .inr ⟨file, rfl, hupdate⟩⟩

/-- An event is added to the log file and printed apart from the output, if it is logged. -/
theorem exists_of_record {e : Event} (h : Step.record e s = .ok () t) :
    ∃ files errors, t = { s with files, errors }
      ∧ s.log.Adds (loggedLines s.log.filter [e]) s.files files
      ∧ (s.log.filter.passes e = false → errors = s.errors) := by
  rw [Step.record] at h
  obtain ⟨_, _, hget, h⟩ := exists_of_bind_ok h
  cases hget
  cases hpasses : s.log.filter.passes e with
  | false =>
    simp only [hpasses, Bool.false_eq_true, if_false] at h
    cases h
    exact ⟨_, _, rfl, .inl ⟨.inr (by simp [loggedLines, hpasses]), rfl⟩, fun _ => rfl⟩
  | true =>
    simp only [hpasses, if_true] at h
    obtain ⟨_, _, hprint, h⟩ := exists_of_bind_ok h
    cases hprint
    obtain ⟨files, rfl, hfiles⟩ := exists_of_logLine h
    have hlines : loggedLines s.log.filter [e] = e.line := by simp [loggedLines, hpasses]
    refine ⟨files, _, rfl, ?_, fun hnot => by contradiction⟩
    rw [hlines]
    exact hfiles.imp_left fun hnone => ⟨.inl hnone.1, hnone.2⟩

/-- What an event adds to the log. -/
theorem adds_of_record {e : Event} (h : Step.record e s = .ok () t) :
    s.log.Adds (loggedLines s.log.filter [e]) s.files t.files := by
  obtain ⟨files, errors, rfl, hfiles, -⟩ := exists_of_record h
  exact hfiles

/-- What logging may change of a session: the log file, and what is printed apart from the output,
unless nothing is logged. -/
structure Logged (s t : Session) : Prop where
  files : s.files.KeepsExcept (t.files.LedTo s.log.file.toList) t.files
  log : t.log = s.log
  output : t.output = s.output
  errors : (∀ e, s.log.filter.passes e = false) → t.errors = s.errors

namespace Logged

theorem refl (s : Session) : Logged s s :=
  ⟨.refl _ _, rfl, rfl, fun _ => rfl⟩

/-- One step of logging after the other, into the same file. -/
theorem trans {u : Session} (h : Logged s t) (h' : Logged t u) : Logged s u where
  files := h.files.andThen (h.log ▸ h'.files) (List.Subset.refl _)
  log := h'.log.trans h.log
  output := h'.output.trans h.output
  errors hsilent := by
    rw [h'.errors (by rwa [h.log]), h.errors hsilent]

theorem of_record {e : Event} (h : Step.record e s = .ok () t) : Logged s t := by
  obtain ⟨files, errors, rfl, hfiles, herrors⟩ := exists_of_record h
  exact ⟨hfiles.keepsExcept.afterwards, rfl, rfl, fun hsilent => herrors (hsilent e)⟩

/-- Events are logged one by one. -/
theorem of_recordAll {events : List Event} (h : Step.recordAll events s = .ok () t) :
    Logged s t := by
  induction events generalizing s with
  | nil =>
    cases h
    exact refl t
  | cons e events ih =>
    rw [Step.recordAll] at h
    obtain ⟨_, between, hrecord, h⟩ := exists_of_bind_ok h
    exact (of_record hrecord).trans (ih h)

theorem of_ofFinding {α : Type} {finding : Finding α} {a : α}
    (h : Step.ofFinding finding s = .ok a t) : Logged s t := by
  obtain ⟨events, -, hrecords⟩ := recordAll_of_ofFinding h
  exact of_recordAll hrecords

end Logged

/-- What starting the log does: its file is there, no other file is changed, and nothing is printed
but warnings about its rules. -/
structure Opened (filter : Option String) (settings : LoggingSettings) (s t : Session) : Prop where
  log : t.log = ⟨.ofText (rulesFor filter settings), logFileOf settings⟩
  output : t.output = s.output
  errors : t.errors = s.errors ++ String.join (EventFilter.warnings (rulesFor filter settings))
  files : s.files.KeepsExcept (t.files.LedTo (logFileOf settings).toList) t.files
  located : ∀ file ∈ logFileOf settings, ∃ place, t.files.locate file = .ok place

/-- Starting the log is making its directory, if it has one, then adding nothing to its file, so
that the file is there, and then printing the warnings. -/
theorem opened_of_openLog {filter : Option String} {settings : LoggingSettings}
    (h : Step.openLog filter settings s = .ok () t) : Opened filter settings s t := by
  -- Whether there is a directory to be made first or not, the rest is the same.
  have hrest : ∀ s : Session, (do
      modify fun s => { s with log := ⟨.ofText (rulesFor filter settings), logFileOf settings⟩ }
      Step.logLine ""
      Step.printError (String.join (EventFilter.warnings (rulesFor filter settings))) : Step Unit) s
        = .ok () t → Opened filter settings s t := by
    intro s h
    obtain ⟨_, _, hlog, h⟩ := exists_of_bind_ok h
    cases hlog
    obtain ⟨_, _, hline, h⟩ := exists_of_bind_ok h
    obtain ⟨files, rfl, hfiles⟩ := exists_of_logLine hline
    cases h
    refine ⟨rfl, rfl, rfl, ?_, fun file hfile => ?_⟩
    · have hadds : Log.Adds ⟨.ofText (rulesFor filter settings), logFileOf settings⟩ "" s.files
          files := hfiles.imp_left fun hnone => ⟨.inr rfl, hnone.2⟩
      exact hadds.keepsExcept.afterwards
    · obtain ⟨hnone, -⟩ | ⟨file', hsome, happend⟩ := hfiles
      · rw [show logFileOf settings = none from hnone] at hfile
        contradiction
      · obtain rfl := Option.mem_unique hfile hsome
        obtain ⟨stop, -, hlocate, -⟩ := FileSystem.update_eq_ok happend
        exact ⟨stop, (FileSystem.keepsExcept_update happend).locate hlocate⟩
  rw [Step.openLog] at h
  cases hdirectory : settings.directory with
  | none =>
    rw [rulesFor, logFileOf, hdirectory] at hrest
    simp only [hdirectory] at h
    exact hrest s h
  | some directory =>
    rw [rulesFor, logFileOf, hdirectory] at hrest
    simp only [hdirectory] at h
    obtain ⟨_, _, hmade, h⟩ := exists_of_bind_ok h
    obtain ⟨made, hdirectories, rfl⟩ := exists_of_onFiles hmade
    have hopened := hrest { s with files := made } h
    exact { hopened with
      files := (FileAction.keepsExcept_createDirectories hdirectories).trans hopened.files }

/-- The log after a file was moved to where a path leads. -/
def Log.movedOver (log : Log) (fs : FileSystem) (p : Path) : Log :=
  if log.file.any (fs.isSamePlace p) then { log with file := none } else log

theorem Log.mem_of_movedOver {log : Log} {fs : FileSystem} {p file : Path}
    (h : file ∈ (log.movedOver fs p).file) : file ∈ log.file := by
  rw [movedOver] at h
  split at h
  · contradiction
  · exact h

/-- What is still the log afterwards was not moved over. -/
theorem Log.isSamePlace_movedOver {log : Log} {fs : FileSystem} {p file : Path}
    (h : file ∈ (log.movedOver fs p).file) : fs.isSamePlace p file = false := by
  rw [movedOver] at h
  split at h
  · contradiction
  · rename_i hother
    simpa [Option.mem_def.1 h] using hother

/-- A file that is moved elsewhere leaves the log. -/
theorem Log.movedOver_of_apart {log : Log} {fs : FileSystem} {p : Path}
    (h : ∀ file ∈ log.file, fs.isSamePlace p file = false) : log.movedOver fs p = log := by
  rw [movedOver, if_neg]
  cases hfile : log.file with
  | none => simp
  | some file => simp [h file hfile]

end

end CommandLine
end ModuleMerge
