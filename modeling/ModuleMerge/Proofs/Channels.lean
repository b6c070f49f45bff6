import ModuleMerge.Proofs.Logging
import ModuleMerge.Proofs.Sources

/-!
# Where the results of a merge arrive

A merge writes its source first, then its report, and logs in between and afterwards. The user names
the places of the source and the report, and the settings that of the log. None of them is held
against the others, so what is written later can take the place of the source. It is never the other
way round: the report is written last but for the log, which lets go of its file when the report
takes the place of this.

The statement has to be about paths that the user has given, and a path can be spelled in many ways.
What matters is whether two of them lead to one place, and when: before the run a path may lead
nowhere, since the directories above it are only made in the run. So places are compared in the end,
when all that was written is there. Going back from there needs that paths once they lead somewhere
do not lead elsewhere later, and this is what the frames of the steps say.

A run is taken apart in two halves. In the first all is found out and nothing is written but the
log; it gives the settings, the output of the pass and the session at that point. In the second the
results are emitted, in three steps with a session after each. The four things that can be in the
place of the source follow from these three steps, by which of the later paths lead there.

What the report says is known as a text, and that it can be read back is another matter, with the
codec's conditions on ids and dates. The ids are small for every file that a machine can hold, but
the model has files of any size, so this stays a condition.

* `Emission` is how the results of a pass are written. `Emission.read_report` says that the report
  arrives, and `Emission.read_source`, `Emission.read_replaced`, `Emission.read_movedAway` and
  `Emission.read_logged` what is in the place of the source in the end.
* `FinishedMerge` is what a merge found out before it wrote anything, and
  `exists_finishedMerge` takes a merge apart.
* `channels_of_merge` is the main result, and `channels_collide` shows the three ways in which the
  source is lost or spoilt.
-/

set_option autoImplicit false

namespace ModuleMerge
namespace CommandLine

open Acting Calendar Json

/-! ## Writing results

First the three steps are described one by one: what each does if its result has a file to go to,
and what it does if not. -/

/-- The paths that something is still written to, or moved from, when the merged source is in its
place: those of the report, and that of the log file. -/
def Sinks.laterPaths (sinks : Sinks) (logFile : Option Path) : List Path :=
  (sinks.log.elim [] fun p => [MergeReport.temporaryPath p, p]) ++ logFile.toList

/-- What is reported of a pass over two named inputs. -/
def reportOf (env : Environment) (settings : Settings) (first second : Path)
    (output : MergeOutput) : MergeReport :=
  .ofOutput env.runId env.now output first.text second.text settings.report.includeBodies

/-- The results of a pass that were written: the session after the source and the one after the
report. -/
structure Emission (env : Environment) (settings : Settings) (first second : Path)
    (output : MergeOutput) (sinks : Sinks) (s t : Session) where
  sourced : Session
  reported : Session
  sources : emitSource output sinks s = .ok () sourced
  reports : emitReport (reportOf env settings first second output) settings.report.pretty sinks
    sourced = .ok () reported
  finishes : Step.record (.mergeFinished output.pass output.ledger.size env.runId) reported
    = .ok () t

section

variable {s t : Session} {env : Environment} {settings : Settings} {first second : Path}
  {sinks : Sinks} {output : MergeOutput}

theorem exists_emission (h : emit env settings first second output sinks s = .ok () t) :
    Nonempty (Emission env settings first second output sinks s t) := by
  rw [emit] at h
  obtain ⟨_, sourced, hsources, h⟩ := exists_of_bind_ok h
  obtain ⟨_, reported, hreports, hfinishes⟩ := exists_of_bind_ok h
  exact ⟨⟨sourced, reported, hsources, hreports, hfinishes⟩⟩

/-- The source goes to its file, and then the log is told so. -/
theorem exists_of_emitSource {p : Path} (hsink : sinks.output = some p)
    (h : emitSource output sinks s = .ok () t) :
    ∃ files, s.files.write p output.merged = .ok files
      ∧ Step.record (.sourceWritten p.text) { s with files } = .ok () t := by
  simp only [emitSource, hsink] at h
  obtain ⟨_, _, hwrite, h⟩ := exists_of_bind_ok h
  obtain ⟨files, hwritten, rfl⟩ := exists_of_onFiles hwrite
  exact ⟨files, MergeReport.write_eq_ok.1 hwritten, h⟩

/-- Without a file it is printed. -/
theorem eq_of_emitSource (hsink : sinks.output = none)
    (h : emitSource output sinks s = .ok () t) :
    t = { s with output := s.output ++ output.merged } := by
  simp only [emitSource, hsink] at h
  cases h
  rfl

/-- The report goes to its file, and the log may lose its own to it. -/
theorem exists_of_emitReport {report : MergeReport} {pretty : Bool} {p : Path}
    (hsink : sinks.log = some p) (h : emitReport report pretty sinks s = .ok () t) :
    ∃ files, report.save p pretty s.files = .ok () files
      ∧ t = { s with files, log := s.log.movedOver files p } := by
  simp only [emitReport, hsink] at h
  obtain ⟨_, _, hsave, h⟩ := exists_of_bind_ok h
  obtain ⟨files, hsaved, rfl⟩ := exists_of_onFiles hsave
  cases h
  refine ⟨files, hsaved, ?_⟩
  rw [Log.movedOver]
  dsimp only
  split
  · rfl
  · rfl

/-- Without a file it is printed apart from the output. -/
theorem eq_of_emitReport {report : MergeReport} {pretty : Bool} (hsink : sinks.log = none)
    (h : emitReport report pretty sinks s = .ok () t) :
    t = { s with errors := s.errors ++ (report.text pretty ++ "\n") } := by
  simp only [emitReport, hsink] at h
  cases h
  rfl

/-- The report never comes to the output. -/
theorem output_of_emitReport {report : MergeReport} {pretty : Bool}
    (h : emitReport report pretty sinks s = .ok () t) : t.output = s.output := by
  cases hsink : sinks.log with
  | none => rw [eq_of_emitReport hsink h]
  | some p =>
    obtain ⟨files, -, rfl⟩ := exists_of_emitReport hsink h
    rfl

/-- Writing a report changes the files that its paths lead to, and the log may lose its file. -/
theorem keepsExcept_emitReport {report : MergeReport} {pretty : Bool}
    (h : emitReport report pretty sinks s = .ok () t) :
    s.files.KeepsExcept (t.files.LedTo (sinks.laterPaths s.log.file)) t.files
      ∧ t.log.file.toList ⊆ s.log.file.toList := by
  cases hsink : sinks.log with
  | none =>
    rw [eq_of_emitReport hsink h]
    exact ⟨.refl _ _, List.Subset.refl _⟩
  | some p =>
    obtain ⟨files, hsave, rfl⟩ := exists_of_emitReport hsink h
    refine ⟨(MergeReport.keepsExcept_save hsave).mono fun place hplace => ?_, fun file hfile => ?_⟩
    · exact hplace.mono (by simp [Sinks.laterPaths, hsink])
    · exact Option.mem_toList.2 (Log.mem_of_movedOver (Option.mem_toList.1 hfile))

/-- Writing a report elsewhere changes neither the log file nor the log. -/
theorem read_of_emitReport {report : MergeReport} {pretty : Bool} {logging : LoggingSettings}
    {p q : Path} {content : String} {stop : Location} {later : FileSystem}
    {changed : Location → Prop} (h : emitReport report pretty sinks s = .ok () t)
    (hfile : s.log.file = logFileOf logging) (hmem : q ∈ logFileOf logging)
    (hp : s.files.locate p = .ok stop) (hq : s.files.locate q = .ok stop)
    (hread : s.files.read p = .ok content) (hlater : t.files.KeepsExcept changed later)
    (hapart : ∀ r ∈ sinks.log, later.isSamePlace p r = false) :
    t.files.read p = .ok content ∧ t.log = s.log := by
  cases hsink : sinks.log with
  | none =>
    rw [eq_of_emitReport hsink h]
    exact ⟨hread, rfl⟩
  | some r =>
    obtain ⟨files, hsave, rfl⟩ := exists_of_emitReport hsink h
    have hsaved := MergeReport.keepsExcept_save hsave
    obtain ⟨start, target, hstart, htarget, -⟩ := MergeReport.at?_of_save hsave
    -- The log is neither the file beside the report, by its name, nor the report, by assumption.
    have hne : stop ≠ start := by
      rintro rfl
      exact locate_logFileOf_ne hmem hstart (hsaved.locate hq)
    have hne' : stop ≠ target := by
      rintro rfl
      have hsame := hlater.isSamePlace_eq (hsaved.locate hp) htarget
      rw [hapart r hsink, FileSystem.isSamePlace_eq_true.2 ⟨stop, hsaved.locate hp, htarget⟩]
        at hsame
      exact Bool.false_ne_true hsame
    constructor
    · refine hsaved.read hread fun place hplace hled => ?_
      obtain rfl : stop = place := Except.ok.inj (hp.symm.trans hplace)
      obtain ⟨other, hother, hlocate⟩ := hled
      rcases List.mem_pair.1 hother with rfl | rfl
      · exact hne (Except.ok.inj (hlocate.symm.trans hstart))
      · exact hne' (Except.ok.inj (hlocate.symm.trans htarget))
    · refine Log.movedOver_of_apart fun file hmem' => Bool.eq_false_iff.2 fun hsame => ?_
      obtain rfl := Option.mem_unique hmem (hfile ▸ hmem')
      obtain ⟨place, hplace, hother⟩ := FileSystem.isSamePlace_eq_true.1 hsame
      rw [htarget] at hplace
      rw [hsaved.locate hq] at hother
      exact hne' (Except.ok.inj (hother.trans hplace.symm))

end

namespace Emission

variable {s t : Session} {env : Environment} {settings : Settings} {first second : Path}
  {sinks : Sinks} {output : MergeOutput}
  (m : Emission env settings first second output sinks s t)
include m

/-- **The report arrives**, and what is logged then goes elsewhere. -/
theorem read_report {p : Path} (hsink : sinks.log = some p) :
    t.files.read p
      = .ok ((reportOf env settings first second output).text settings.report.pretty) := by
  obtain ⟨files, hsave, hreported⟩ := exists_of_emitReport hsink m.reports
  have hadds := adds_of_record m.finishes
  rw [hreported] at hadds
  exact hadds.keepsExcept.read (MergeReport.read_of_save hsave) fun _ hplace =>
    FileSystem.not_ledTo_of_apart hplace fun _ hfile =>
      Log.isSamePlace_movedOver (Option.mem_toList.1 hfile)

/-- What is changed after the merged source was written: files where the report's paths and the
log's lead in the end, and no others. The frames of three steps are put together for this. -/
theorem exists_written {p : Path} (hsink : sinks.output = some p) :
    ∃ files, s.files.write p output.merged = .ok files
      ∧ Step.record (.sourceWritten p.text) { s with files } = .ok () m.sourced
      ∧ m.sourced.log = s.log
      ∧ files.KeepsExcept (t.files.LedTo (sinks.laterPaths s.log.file)) t.files := by
  obtain ⟨files, hwrite, hrecord⟩ := exists_of_emitSource hsink m.sources
  have hlogged := Logged.of_record hrecord
  obtain ⟨hkeeps, hsub⟩ := keepsExcept_emitReport m.reports
  rw [hlogged.log] at hkeeps hsub
  have hlater : s.log.file.toList ⊆ sinks.laterPaths s.log.file := List.subset_append_right _ _
  have hfinished := (Logged.of_record m.finishes).files
  refine ⟨files, hwrite, hrecord, hlogged.log, ?_⟩
  have hsub' := List.Subset.trans hsub hlater
  exact (hlogged.files.andThen hkeeps hlater).andThen
    (hfinished.mono fun _ hplace => hplace.mono hsub') (List.Subset.refl _)

/-- The merged source stays where it is, if nothing else is written there. -/
theorem read_source {p : Path} (hsink : sinks.output = some p)
    (hapart : ∀ q ∈ sinks.laterPaths s.log.file, t.files.isSamePlace p q = false) :
    t.files.read p = .ok output.merged := by
  obtain ⟨files, hwrite, -, -, hkept⟩ := m.exists_written hsink
  exact hkept.read (FileSystem.read_of_write hwrite) fun _ hplace =>
    FileSystem.not_ledTo_of_apart (hkept.locate hplace) hapart

/-- The report takes the place of the source, if it is written there. -/
theorem read_replaced {p q : Path} (hsink : sinks.output = some p) (hlog : sinks.log = some q)
    (hsame : t.files.isSamePlace p q = true) :
    t.files.read p
      = .ok ((reportOf env settings first second output).text settings.report.pretty) := by
  obtain ⟨_, hwrite, -⟩ := m.exists_written hsink
  obtain ⟨_, _, -, hslash, -⟩ := FileSystem.update_eq_ok hwrite
  exact FileSystem.read_of_isSamePlace (m.read_report hlog) hsame hslash

/-- The source is lost, if it was written where the report is before it is moved. Nothing is put
back there, since the log file is elsewhere. -/
theorem read_movedAway {p q : Path} (hlog : sinks.log = some q)
    (hfile : m.sourced.log.file = logFileOf settings.logging)
    (hapart : t.files.isSamePlace p q = false)
    (hsame : t.files.isSamePlace p (MergeReport.temporaryPath q) = true) :
    t.files.read p = .error .notFound := by
  obtain ⟨files, hsave, hreported⟩ := exists_of_emitReport hlog m.reports
  obtain ⟨start, stop, hstart, hstop, hgone⟩ := MergeReport.at?_of_save hsave
  have hadds := adds_of_record m.finishes
  rw [hreported] at hadds
  have hkeeps := hadds.keepsExcept
  obtain ⟨place, hp, htemporary⟩ := FileSystem.isSamePlace_eq_true.1 hsame
  obtain rfl : place = start :=
    Except.ok.inj (htemporary.symm.trans (hkeeps.locate hstart))
  have hne : place ≠ stop := by
    rintro rfl
    rw [FileSystem.isSamePlace_eq_true.2 ⟨place, hp, hkeeps.locate hstop⟩] at hapart
    contradiction
  refine FileSystem.read_of_none hp ?_
  rw [hadds.at?_eq fun file hmem => ?_, hgone hne]
  exact locate_logFileOf_ne (hfile ▸ Log.mem_of_movedOver hmem) hstart

/-- What is logged comes behind the source, if this was written over the log file. -/
theorem read_logged {p q : Path} (hsink : sinks.output = some p)
    (hfile : s.log.file = logFileOf settings.logging) (hmem : q ∈ logFileOf settings.logging)
    {place : Location} (hplace : s.files.locate q = .ok place)
    (hsame : t.files.isSamePlace p q = true)
    (hapart : ∀ r ∈ sinks.log, t.files.isSamePlace p r = false) :
    t.files.read p = .ok (output.merged ++ loggedLines s.log.filter
      [.sourceWritten p.text, .mergeFinished output.pass output.ledger.size env.runId]) := by
  obtain ⟨files, hwrite, hrecord, hlog, hkept⟩ := m.exists_written hsink
  have hread := FileSystem.read_of_write hwrite
  -- The log's path leads somewhere from the start, so it led there when the source was written.
  have hq : files.locate q = .ok place := (FileSystem.keepsExcept_update hwrite).locate hplace
  obtain ⟨stop, hp, -⟩ := FileSystem.read_eq_ok.1 hread
  obtain rfl : stop = place := by
    obtain ⟨other, hother, hother'⟩ := FileSystem.isSamePlace_eq_true.1 hsame
    rw [hkept.locate hp] at hother
    rw [hkept.locate hq] at hother'
    exact Except.ok.inj (hother.trans hother'.symm)
  -- Behind the source comes the line that it was written.
  have hadds := adds_of_record hrecord
  have hsourced := hadds.read (hfile ▸ hmem) hread
    (FileSystem.isSamePlace_eq_true.2 ⟨stop, hp, hq⟩)
  have hp' := hadds.keepsExcept.locate hp
  have hq' := hadds.keepsExcept.locate hq
  obtain ⟨hreported, hsameLog⟩ := read_of_emitReport m.reports (hlog ▸ hfile) hmem hp' hq' hsourced
    (adds_of_record m.finishes).keepsExcept hapart
  obtain ⟨hkeeps, -⟩ := keepsExcept_emitReport m.reports
  have hfinished := (adds_of_record m.finishes).read (by rw [hsameLog, hlog, hfile]; exact hmem)
    hreported (FileSystem.isSamePlace_eq_true.2 ⟨stop, hkeeps.locate hp', hkeeps.locate hq'⟩)
  have hlines := loggedLines_cons s.log.filter (.sourceWritten p.text)
    [.mergeFinished output.pass output.ledger.size env.runId]
  rw [hfinished, hsameLog, hlog, hlines, String.append_assoc]

/-- The source is printed if it has no place, and nothing else is printed. -/
theorem output_eq : t.output = s.output ++ sinks.output.elim output.merged fun _ => "" := by
  rw [(Logged.of_record m.finishes).output, output_of_emitReport m.reports]
  cases hsink : sinks.output with
  | none =>
    rw [eq_of_emitSource hsink m.sources]
    rfl
  | some p =>
    obtain ⟨files, -, hrecord⟩ := exists_of_emitSource hsink m.sources
    rw [(Logged.of_record hrecord).output, Option.elim_some, String.append_empty]

/-- A report without a place is printed by itself, if nothing is logged. -/
theorem errors_eq (hsink : sinks.log = none) (hsilent : ∀ e, s.log.filter.passes e = false) :
    t.errors = s.errors
      ++ ((reportOf env settings first second output).text settings.report.pretty ++ "\n") := by
  have hsourced : m.sourced.errors = s.errors ∧ m.sourced.log = s.log := by
    cases hsink' : sinks.output with
    | none =>
      rw [eq_of_emitSource hsink' m.sources]
      exact ⟨rfl, rfl⟩
    | some p =>
      obtain ⟨files, -, hrecord⟩ := exists_of_emitSource hsink' m.sources
      have hlogged := Logged.of_record hrecord
      exact ⟨hlogged.errors hsilent, hlogged.log⟩
  have hreported := eq_of_emitReport hsink m.reports
  rw [(Logged.of_record m.finishes).errors, hreported, hsourced.1]
  rwa [hreported, hsourced.2]

end Emission

/-! ## Merges that went through

A run that ends well has gone through all its steps, so each of them gave something. These things
are kept in a structure, and the results are then said of it. -/

/-- What a merge finds is what a pass gives. -/
theorem exists_findPass {env : Environment} {settings : Settings} {fs : FileSystem}
    {first second : Path} {resolutions : Option Path} {sinks : Sinks} {output : MergeOutput}
    {before after : List Event}
    (h : findMerged env settings fs first second resolutions sinks before = .ok output after) :
    ∃ inputs choices between, Inputs.read fs first second = .ok inputs
      ∧ (resolutions = none → choices = none)
      ∧ findPass env (configFor settings first sinks) inputs choices between
        = .ok output after := by
  rw [findMerged] at h
  obtain ⟨inputs, read, hinputs, h⟩ := exists_of_bind_ok h
  -- The merge stops where a file is missing, so here both were read.
  have hread : Inputs.read fs first second = .ok inputs := by
    cases hfound : Inputs.read fs first second with
    | ok found =>
      rw [hfound] at hinputs
      cases hinputs
      rfl
    | error e =>
      rw [hfound] at hinputs
      cases hinputs
  cases resolutions with
  | none =>
    obtain ⟨_, loaded, hnone, h⟩ := exists_of_bind_ok h
    cases hnone
    obtain ⟨_, noted, -, h⟩ := exists_of_bind_ok h
    exact ⟨inputs, none, noted, hread, fun _ => rfl, h⟩
  | some p =>
    obtain ⟨choices, loaded, -, h⟩ := exists_of_bind_ok h
    obtain ⟨_, noted, -, h⟩ := exists_of_bind_ok h
    exact ⟨inputs, choices, noted, hread, fun hnone => by contradiction, h⟩

/-- The decisions of a pass have ids of its ledger. -/
theorem exists_entry_of_decision {env : Environment} {config : MergeConfig} {inputs : Inputs}
    {choices : Option Resolutions} {output : MergeOutput} {before after : List Event}
    (h : findPass env config inputs choices before = .ok output after) {d : Decision}
    (hd : d ∈ output.decisions) : ∃ e ∈ output.ledger.entries, e.id = d.id := by
  obtain ⟨given, hrun, rfl⟩ := exists_run_of_findPass h
  rw [MergeConfig.run] at hrun
  cases hfirst : config.readSide .first (env.source config.language inputs.first) with
  | error e => simp [hfirst, bind, Except.bind] at hrun
  | ok m =>
    cases hsecond : config.readSide .second (env.source config.language inputs.second) with
    | error e => simp [hfirst, hsecond, bind, Except.bind] at hrun
    | ok m' =>
      simp only [hfirst, hsecond, bind, Except.bind, pure, Except.pure] at hrun
      cases hrun
      have hids := map_id_decisions ⟨config.annotationTag, choices⟩ (.ofModule m) (.ofModule m')
      obtain ⟨e, he, hid⟩ := List.mem_map.1 (hids ▸ List.mem_map_of_mem hd)
      exact ⟨e, (List.mem_filter.1 he).1, hid⟩

/-- What a merge found out before it wrote anything. -/
structure FinishedMerge (env : Environment) (files : FileSystem) (settingsFile : Option Path)
    (first second : Path) (resolutions : Option Path) (sinks : Sinks) where
  settings : Settings
  /-- The session in which the log is started. -/
  opened : Session
  output : MergeOutput
  events : List Event
  loads : Settings.loadOrDefault files settingsFile = .ok settings
  opens : Step.openLog env.filter settings.logging (.start files env.keys) = .ok () opened
  finds : findMerged env settings opened.files first second resolutions sinks []
    = .ok output events

section

variable {env : Environment} {files : FileSystem} {settingsFile : Option Path}
  {first second : Path} {resolutions : Option Path} {sinks : Sinks} {t : Session}

/-- A merge that went through found everything out, logged what it found on the way, and wrote its
results. -/
theorem exists_finishedMerge
    (h : start env settingsFile (.merge first second resolutions sinks) (.start files env.keys)
      = .ok () t) :
    ∃ m : FinishedMerge env files settingsFile first second resolutions sinks, ∃ s,
      Logged m.opened s
        ∧ Nonempty (Emission env m.settings first second m.output sinks s t) := by
  rw [start] at h
  obtain ⟨settings, _, hlook, h⟩ := exists_of_bind_ok h
  obtain ⟨hloads, rfl⟩ := exists_of_look hlook
  obtain ⟨_, opened, hopens, h⟩ := exists_of_bind_ok h
  rw [perform, merge] at h
  obtain ⟨_, _, hget, h⟩ := exists_of_bind_ok h
  cases hget
  obtain ⟨output, s, hfinding, hemit⟩ := exists_of_bind_ok h
  obtain ⟨events, hfinds⟩ := exists_of_ofFinding hfinding
  exact ⟨⟨settings, opened, output, events, hloads, hopens, hfinds⟩, s,
    .of_ofFinding hfinding, exists_emission hemit⟩

namespace FinishedMerge

variable (m : FinishedMerge env files settingsFile first second resolutions sinks)

/-- What is reported of the pass. -/
def report : MergeReport :=
  reportOf env m.settings first second m.output

/-- The rules of the log. -/
def filter : EventFilter :=
  .ofText (rulesFor env.filter m.settings.logging)

/-- No event is logged, and nothing is said about the rules of the log. -/
structure Silent : Prop where
  passes : ∀ e, m.filter.passes e = false
  warnings : EventFilter.warnings (rulesFor env.filter m.settings.logging) = []

/-- What a run leaves in the place of the merged source. -/
structure SourceAt (o : Outcome) (p : Path) : Prop where
  /-- It is the source, if the report and the log have other places. -/
  kept : (∀ q ∈ sinks.laterPaths (logFileOf m.settings.logging), o.files.isSamePlace p q = false) →
    o.files.read p = .ok m.output.merged
  /-- It is the report, if this has the same place. -/
  replaced : ∀ q ∈ sinks.log, o.files.isSamePlace p q = true →
    o.files.read p = .ok (m.report.text m.settings.report.pretty)
  /-- There is nothing, if the report was written there and then moved elsewhere. -/
  movedAway : ∀ q ∈ sinks.log, o.files.isSamePlace p q = false →
    o.files.isSamePlace p (MergeReport.temporaryPath q) = true → o.files.read p = .error .notFound
  /-- It is the source and what was logged since, if it is the log file. -/
  logged : ∀ q ∈ logFileOf m.settings.logging, o.files.isSamePlace p q = true →
    (∀ r ∈ sinks.log, o.files.isSamePlace p r = false) →
    o.files.read p = .ok (m.output.merged ++ loggedLines m.filter
      [.sourceWritten p.text, .mergeFinished m.output.pass m.output.ledger.size env.runId])

/-- What becomes of the merged source in a run: it is printed, and nothing else is, or it was
written to its place. -/
def SourceArrives (o : Outcome) : Prop :=
  match sinks.output with
  | none => o.output = m.output.merged
  | some p => o.output = "" ∧ m.SourceAt o p

/-- The report is in its place, or it is printed apart from the source, by itself if the log is
silent. -/
def ReportArrives (o : Outcome) : Prop :=
  match sinks.log with
  | none => m.Silent → MergeReport.codec.decode o.errors = .ok m.report
  | some p => MergeReport.load o.files p = .ok m.report

/-- The ids in the log of decisions are ids of the ledger. -/
theorem narrow_decisions (h : m.output.ledger.Narrow) :
    ∀ d ∈ m.output.decisions, d.id < Codec.bound32 := by
  intro d hd
  obtain ⟨_, _, _, -, -, hpass⟩ := exists_findPass m.finds
  obtain ⟨e, he, hid⟩ := exists_entry_of_decision hpass hd
  exact hid ▸ h e he

/-- The report of a merge has what it takes to be read back, with or without bodies. -/
theorem fits_report (hids : m.output.ledger.Narrow)
    (hyear : TimeReader.hasDays env.now.date.year = true) : m.report.Fits where
  entries e he := by
    rw [report, reportOf, MergeReport.ofOutput] at he
    dsimp only at he
    split at he
    · exact hids e he
    · obtain ⟨e', he', rfl⟩ := List.mem_map.1 he
      exact hids e' he'
  decisions := m.narrow_decisions hids
  year := hyear

end FinishedMerge

end

/-! ## The main result

Where a result has no file of its own, it is one of the two texts that a run prints. The report is
mixed there with the lines of the log, and with warnings about the log's rules, unless there are
none. -/

/-- A merge that ends well went through. -/
theorem exists_of_run {env : Environment} {files : FileSystem} {arguments : List String}
    {settingsFile : Option Path} {command : Command}
    (harguments : Request.ofArguments? arguments = some (.run settingsFile command))
    (hexit : (run env files arguments).exitCode = 0) :
    ∃ t, start env settingsFile command (.start files env.keys) = .ok () t
      ∧ run env files arguments = ⟨0, t.output, t.errors, t.files, none⟩ := by
  simp only [run, harguments] at hexit ⊢
  rw [Outcome.ofStep] at hexit ⊢
  split
  · exact ⟨_, ‹_›, rfl⟩
  · rename_i hfailed
    simp [hfailed] at hexit

/-- **The results of a merge arrive**, as far as they have places of their own. Whenever a merge
ends well, its report is read back from the file that was named for it, whatever else was written;
or it is all that was printed apart from the output, if nothing was logged. The source is all that
was printed, or it is in the file that was named for it, if this is neither the file of the report,
nor the one that the report is first written to, nor that of the log; `FinishedMerge.SourceAt` also
says what is left of the source if it is one of them. To be read back, a report needs ids of 32 bits
and a time with a date. -/
theorem channels_of_merge (env : Environment) (files : FileSystem) (arguments : List String)
    (settingsFile : Option Path) (first second : Path) (resolutions : Option Path) (sinks : Sinks)
    (harguments : Request.ofArguments? arguments
      = some (.run settingsFile (.merge first second resolutions sinks)))
    (hexit : (run env files arguments).exitCode = 0) :
    ∃ m : FinishedMerge env files settingsFile first second resolutions sinks,
      m.SourceArrives (run env files arguments)
        ∧ (m.output.ledger.Narrow → TimeReader.hasDays env.now.date.year = true →
          m.ReportArrives (run env files arguments)) := by
  obtain ⟨t, hstart, hrun⟩ := exists_of_run harguments hexit
  obtain ⟨m, s, hlogged, ⟨emission⟩⟩ := exists_finishedMerge hstart
  have hopened := opened_of_openLog m.opens
  have hlog : s.log = ⟨m.filter, logFileOf m.settings.logging⟩ := hlogged.log.trans hopened.log
  have houtput : s.output = "" := hlogged.output.trans hopened.output
  have hfile : s.log.file = logFileOf m.settings.logging := by rw [hlog]
  rw [hrun]
  refine ⟨m, ?_, fun hids hyear => ?_⟩
  · -- The source: one case for each of the files that could be in its place.
    rw [FinishedMerge.SourceArrives]
    have hprinted := emission.output_eq
    rw [houtput, String.empty_append] at hprinted
    cases hsink : sinks.output with
    | none => simpa [hsink] using hprinted
    | some p =>
      obtain ⟨-, -, -, hsameLog, -⟩ := emission.exists_written hsink
      refine ⟨by simpa [hsink] using hprinted, ⟨fun hapart => ?_, fun q hq hsame => ?_,
        fun q hq hapart hsame => ?_, fun q hq hsame hapart => ?_⟩⟩
      · exact emission.read_source hsink (hfile ▸ hapart)
      · exact emission.read_replaced hsink hq hsame
      · exact emission.read_movedAway hq (hsameLog ▸ hfile) hapart hsame
      · obtain ⟨place, hplace⟩ := hopened.located q hq
        have hread := emission.read_logged hsink hfile hq (hlogged.files.locate hplace) hsame hapart
        rwa [hlog] at hread
  · -- The report: what was written or printed is decoded.
    have hfits := m.fits_report hids hyear
    rw [FinishedMerge.ReportArrives]
    cases hsink : sinks.log with
    | none =>
      intro hsilent
      have herrors := emission.errors_eq hsink (by rw [hlog]; exact hsilent.passes)
      have hnothing : s.errors = "" := by
        rw [hlogged.errors (by rw [hopened.log]; exact hsilent.passes), hopened.errors,
          hsilent.warnings]
        rfl
      rw [hnothing, String.empty_append] at herrors
      rw [herrors]
      exact Codec.decode_encodeText_append (MergeReport.readsBack hfits)
        (MergeReport.style m.settings.report.pretty) (Gap.newLine .pretty 0).allBlank
    | some p => exact MergeReport.load_of_read hfits (emission.read_report hsink)

/-- A run without a user, in which nothing is logged. -/
def quietEnvironment : Environment :=
  { sampleEnvironment with keys := none, filter := some "off" }

/-- A filter that is off lets no event through. -/
theorem passes_off (e : Event) : (EventFilter.ofText "off").passes e = false := by
  have hrules : EventFilter.ofText "off" = ⟨[.forAll 0]⟩ := by decide +kernel
  rw [hrules]
  cases e <;> rfl

/-- The settings are the defaults, and the ids of the differences are small. -/
theorem FinishedMerge.of_sample {sinks : Sinks} (hlanguage : sinks.language = none)
    (m : FinishedMerge quietEnvironment (sampleFiles []) none ⟨"a.cs"⟩ ⟨"b.cs"⟩ none sinks) :
    m.settings = .default ∧ m.output.ledger.Narrow := by
  have hsettings : m.settings = .default := (Except.ok.inj m.loads).symm
  refine ⟨hsettings, ?_⟩
  obtain ⟨inputs, choices, before, hread, hnone, hpass⟩ := exists_findPass m.finds
  have hkeeps := (opened_of_openLog m.opens).files
  rw [hsettings] at hkeeps hpass
  have hnothing : ∀ place,
      ¬ m.opened.files.LedTo (logFileOf Settings.default.logging).toList place := by
    rintro place ⟨q, hq, -⟩
    exact List.not_mem_nil hq
  have hopened : Inputs.read m.opened.files ⟨"a.cs"⟩ ⟨"b.cs"⟩ = .ok sampleInputs := by
    have hfirst : m.opened.files.read ⟨"a.cs"⟩ = .ok sampleInputs.first :=
      hkeeps.read rfl fun place _ => hnothing place
    have hsecond : m.opened.files.read ⟨"b.cs"⟩ = .ok sampleInputs.second :=
      hkeeps.read rfl fun place _ => hnothing place
    rw [Inputs.read, FileSystem.readFor_of_read hfirst, FileSystem.readFor_of_read hsecond]
    rfl
  obtain rfl : inputs = sampleInputs := Except.ok.inj (hread.symm.trans hopened)
  rw [hnone rfl] at hpass
  have hconfig : configFor .default ⟨"a.cs"⟩ sinks
      = configFor .default ⟨"a.cs"⟩ ⟨none, none, none⟩ := by
    rw [configFor, configFor, hlanguage]
  rw [hconfig] at hpass
  exact sample_ids_narrow hpass

/-- The results go to two files, or they are printed. -/
theorem channels_of_merge_sample :
    let toFiles := ["merge", "a.cs", "b.cs", "--output", "out.cs", "--log", "r.json"]
    let printed := ["merge", "a.cs", "b.cs"]
    let ran := run quietEnvironment (sampleFiles [])
    Request.ofArguments? toFiles
        = some (.run none (.merge ⟨"a.cs"⟩ ⟨"b.cs"⟩ none ⟨some ⟨"out.cs"⟩, some ⟨"r.json"⟩, none⟩))
      ∧ (ran toFiles).exitCode = 0
      ∧ Request.ofArguments? printed
        = some (.run none (.merge ⟨"a.cs"⟩ ⟨"b.cs"⟩ none ⟨none, none, none⟩))
      ∧ (ran printed).exitCode = 0
      ∧ (∃ m : FinishedMerge quietEnvironment (sampleFiles []) none ⟨"a.cs"⟩ ⟨"b.cs"⟩ none
          ⟨some ⟨"out.cs"⟩, some ⟨"r.json"⟩, none⟩,
        (ran toFiles).files.read ⟨"out.cs"⟩ = .ok m.output.merged
          ∧ MergeReport.load (ran toFiles).files ⟨"r.json"⟩ = .ok m.report)
      ∧ ∃ m : FinishedMerge quietEnvironment (sampleFiles []) none ⟨"a.cs"⟩ ⟨"b.cs"⟩ none
          ⟨none, none, none⟩,
        (ran printed).output = m.output.merged
          ∧ MergeReport.codec.decode (ran printed).errors = .ok m.report := by
  intro toFiles printed ran
  have harguments : Request.ofArguments? toFiles = some (.run none
      (.merge ⟨"a.cs"⟩ ⟨"b.cs"⟩ none ⟨some ⟨"out.cs"⟩, some ⟨"r.json"⟩, none⟩)) := by
    decide +kernel
  have hexit : (ran toFiles).exitCode = 0 := by decide +kernel
  have harguments' : Request.ofArguments? printed
      = some (.run none (.merge ⟨"a.cs"⟩ ⟨"b.cs"⟩ none ⟨none, none, none⟩)) := by
    decide +kernel
  have hexit' : (ran printed).exitCode = 0 := by decide +kernel
  have hyear : TimeReader.hasDays quietEnvironment.now.date.year = true := by decide
  obtain ⟨m, ⟨-, hsource⟩, hreport⟩ :=
    channels_of_merge quietEnvironment (sampleFiles []) toFiles _ _ _ _ _ harguments hexit
  obtain ⟨m', hsource', hreport'⟩ :=
    channels_of_merge quietEnvironment (sampleFiles []) printed _ _ _ _ _ harguments' hexit'
  refine ⟨harguments, hexit, harguments', hexit', ⟨m, hsource.kept ?_, hreport ?_ hyear⟩,
    ⟨m', hsource', hreport' ?_ hyear ?_⟩⟩
  · rw [(m.of_sample rfl).1]
    decide +kernel
  · exact (m.of_sample rfl).2
  · exact (m'.of_sample rfl).2
  · refine ⟨fun e => ?_, ?_⟩
    · rw [FinishedMerge.filter, (m'.of_sample rfl).1]
      exact passes_off e
    · rw [(m'.of_sample rfl).1]
      decide +kernel

/-- The merged source can be lost although a merge ends well: to the file that the report is written
to before it is moved, or to the report itself. And it can get lines of the log behind it. -/
theorem channels_collide :
    let settings := "\x7b\"logging\":\x7b\"dir\":\"logs\"\x7d\x7d"
    let ran := run sampleEnvironment (sampleFiles [(["s.json"], .file settings)])
    let inputs := ["merge", "a.cs", "b.cs"]
    let merged := (ran inputs).output
    let beside := ran (inputs ++ ["--output", ".r.json.tmp", "--log", "r.json"])
    let same := ran (inputs ++ ["--output", "r.json", "--log", "r.json"])
    let logged := ran (["--config", "s.json"] ++ inputs
      ++ ["--output", "logs/declmerge.log", "--log", "r.json"])
    (beside.exitCode = 0 ∧ beside.files.contains ⟨".r.json.tmp"⟩ = false)
      ∧ (same.exitCode = 0 ∧ (same.files.read ⟨"r.json"⟩).toOption ≠ some merged)
      ∧ (logged.exitCode = 0 ∧ (logged.files.read ⟨"logs/declmerge.log"⟩).toOption
        = some (merged ++ "INFO declmerge: Merged source written to logs/declmerge.log\n"
          ++ "INFO declmerge: Merge finished pass=detect entries=1 run_id=1_abcdef0\n")) := by
  decide +kernel

end CommandLine
end ModuleMerge
