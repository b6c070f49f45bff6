import ModuleMerge.Proofs.Files
import ModuleMerge.Proofs.InstantText
import ModuleMerge.Proofs.JsonCodec
import ModuleMerge.Report

/-!
# Reading back reports

A report that was written is read back as it was: every text with all its characters, every field
that may be missing as the one it is, and the time to the billionth of a second. That rests on the
law of codecs field by field. The rest is about files: a report is written to a file beside the one
asked for and then moved, so it has to be found where it was moved to.

Codecs are put together from those of their parts, and the law that a value is read back goes with
them. A record keeps it if each field has it and no two fields have one key. So the first half of
this file is a list of instances, with two points to be watched: an optional text is not to be
mistaken for a missing one if it is empty, and numbers have bounds. Of the numbers in a report these
are the ids, which are kept in 32 bits, and the year, which has to be one that is read as a year.

The second half is about files. Three operations in a row can each fail, and a path may cease to
lead where it did, as far as one can tell from the operations alone. That it does not is the law of
`Proofs/Files`: no operation of a run takes a directory away.

* `MergeReport.readsBack` and `Ledger.readsBack` say it for the codecs.
* `MergeReport.load_of_save` says that what was saved is loaded again, and
  `MergeReport.exists_save` that a report can be saved where `MergeReport.Accepts` says so.
* `reports_read_back` is the main result.
-/

set_option autoImplicit false

namespace ModuleMerge

open Acting Calendar Json

/-! ## Names of runs -/

/-- Every name that a run gets has the form of such names, at whatever time it starts and whatever
chance adds: of a long number only the last digits are written. -/
theorem isRunId_runId (millis noise : Nat) : isRunId (runId millis noise) = true := by
  have hmillis : (runId millis noise).toList.takeWhile Char.isDigit = Nat.toDigits 10 millis := by
    rw [runId, String.toList_ofList]
    refine Reading.takeWhile_append (fun c hc => ?_) fun c hc => ?_
    · exact Nat.isDigit_of_mem_toDigits (by decide) (by decide) hc
    · obtain rfl := Option.some.inj hc
      decide
  have hnoise : ∀ c ∈ Text.fixedDigits 16 7 noise,
      (c.isDigit || ('a' ≤ c && c ≤ 'f')) = true :=
    Text.forall_mem_fixedDigits (by decide) (by decide)
  have hdrop : (runId millis noise).toList.drop (Nat.toDigits 10 millis).length
      = '_' :: Text.fixedDigits 16 7 noise := by
    rw [runId, String.toList_ofList, List.drop_left]
  simp only [isRunId, hmillis, hdrop]
  simpa [Nat.toDigits_ne_nil] using hnoise

/-! ## Parts of reports

Enumerations are written by their names, so it is enough that the case found under a name is the one
that it was written for. Each is a check on a few cases. -/

theorem Calendar.Instant.readsBack {t : Instant} (h : TimeReader.hasDays t.date.year = true) :
    Instant.codec.ReadsBack t :=
  Codec.readsBack_parsed (by rw [Instant.ofText_text t h]; rfl)

theorem DifferenceKind.readsBack (kind : DifferenceKind) :
    DifferenceKind.codec.ReadsBack kind :=
  Codec.readsBack_enumeration (by cases kind <;> decide)

theorem Strategy.readsBack (strategy : Strategy) : Strategy.codec.ReadsBack strategy :=
  Codec.readsBack_enumeration (by cases strategy <;> decide)

theorem Disposition.readsBack (disposition : Disposition) :
    Disposition.codec.ReadsBack disposition :=
  Codec.readsBack_enumeration (by cases disposition <;> decide)

theorem DecisionSource.readsBack (source : DecisionSource) :
    DecisionSource.codec.ReadsBack source :=
  Codec.readsBack_enumeration (by cases source <;> decide)

theorem Pass.readsBack (pass : Pass) : Pass.codec.ReadsBack pass :=
  Codec.readsBack_enumeration (by cases pass <;> decide)

theorem readsBack_text (name text : String) : (Field.required name .text).ReadsBack text :=
  Field.readsBack_required name (Codec.readsBack_textAs "a string" text)

/-- A text that may be missing is not taken for a missing one, even if it is empty. -/
theorem readsBack_optional_text (name : String) (text? : Option String) :
    (Field.optional name .text).ReadsBack text? :=
  Field.readsBack_optional fun text _ =>
    ⟨Codec.readsBack_textAs "a string" text, fun hnull => by cases hnull⟩

theorem LedgerEntry.readsBack {e : LedgerEntry} (h : e.id < Codec.bound32) :
    LedgerEntry.codec.ReadsBack e :=
  Codec.readsBack_record "ConflictEntry"
    ⟨Field.readsBack_required "id" (Codec.readsBack_natural32 h), by decide,
      Field.readsBack_required "kind" (DifferenceKind.readsBack e.kind), by decide,
      readsBack_text "name" e.name, by decide,
      readsBack_text "location" e.location, by decide,
      Field.readsBack_required "strategy" (Strategy.readsBack e.strategy), by decide,
      readsBack_optional_text "signature" e.signature, by decide,
      readsBack_optional_text "firstBody" e.firstBody, by decide,
      readsBack_optional_text "secondBody" e.secondBody, by decide, trivial⟩ rfl

theorem Decision.readsBack {d : Decision} (h : d.id < Codec.bound32) :
    Decision.codec.ReadsBack d :=
  Codec.readsBack_record "Decision"
    ⟨Field.readsBack_required "id" (Codec.readsBack_natural32 h), by decide,
      Field.readsBack_required "disposition" (Disposition.readsBack d.disposition), by decide,
      Field.readsBack_required "source" (DecisionSource.readsBack d.source), by decide, trivial⟩ rfl

/-! ## Ledgers and reports

The bounds are put down as conditions on the whole, and a list has the law if all its items do. -/

/-- All ids of a ledger have 32 bits. -/
def Ledger.Narrow (l : Ledger) : Prop :=
  ∀ e ∈ l.entries, e.id < Codec.bound32

theorem Ledger.readsBack {l : Ledger} (h : l.Narrow) : Ledger.codec.ReadsBack l :=
  Codec.readsBack_via (Codec.readsBack_list fun e he => LedgerEntry.readsBack (h e he)) rfl

theorem FileAction.keepsExcept_createDirectories {p : Path} {fs fs' : FileSystem}
    {changed : Location → Prop} (h : FileAction.createDirectories p fs = .ok () fs') :
    fs.KeepsExcept changed fs' := by
  rw [createDirectories, EStateM.adaptExcept] at h
  split at h
  · simp at h
  · cases h
    exact FileSystem.keepsExcept_createDirectories ‹_›

theorem FileSystem.readFor_of_read {fs : FileSystem} {task : FileTask} {p : Path}
    {content : String} (h : fs.read p = .ok content) : fs.readFor task p = .ok content := by
  rw [readFor, h]
  rfl

namespace MergeReport

/-- All ids of a report have 32 bits, and its year is one with days that can be named. These are the
bounds of the numbers that a report is made of. -/
structure Fits (r : MergeReport) : Prop where
  entries : ∀ e ∈ r.entries, e.id < Codec.bound32
  decisions : ∀ d ∈ r.decisions, d.id < Codec.bound32
  year : TimeReader.hasDays r.generatedAt.date.year = true

/-- **A report is read back.** -/
theorem readsBack {r : MergeReport} (h : r.Fits) : codec.ReadsBack r := by
  have hentries : (Codec.list LedgerEntry.codec).ReadsBack r.entries :=
    Codec.readsBack_list fun e he => LedgerEntry.readsBack (h.entries e he)
  have hdecisions : (Codec.list Decision.codec).ReadsBack r.decisions :=
    Codec.readsBack_list fun d hd => Decision.readsBack (h.decisions d hd)
  exact Codec.readsBack_record "MergeReport"
    ⟨readsBack_text "runId" r.runId, by decide,
      Field.readsBack_required "generatedAt" (Instant.readsBack h.year), by decide,
      Field.readsBack_required "pass" (Pass.readsBack r.pass), by decide,
      readsBack_text "first" r.first, by decide,
      readsBack_text "second" r.second, by decide,
      Field.readsBack_required "entries" hentries, by decide,
      Field.readsBack_required "decisions" hdecisions, by decide, trivial⟩ rfl

/-- The text of a report is read back, in either style. -/
theorem decode_text {r : MergeReport} (h : r.Fits) (pretty : Bool) :
    codec.decode (r.text pretty) = .ok r :=
  Codec.decode_encodeText (readsBack h) (style pretty)

/-! ## Files

Saving is written as three actions in a row, so that it can be taken apart at their binds. The file
beside the path is the same for every report that is saved there. -/

/-- Makes the directories above a path, as far as it names any. -/
def makeRoom (p : Path) : FileAction Unit :=
  p.parent?.elim (pure ()) fun directory =>
    if directory.text = "" then pure () else FileAction.createDirectories directory

/-- A report is saved by making room, writing beside the path and moving. -/
theorem save_eq (r : MergeReport) (p : Path) (pretty : Bool) :
    r.save p pretty = (do
      makeRoom p
      FileAction.write .writingReport (temporaryPath p) (r.text pretty)
      FileAction.ofOperation (fun e => .during .movingReport p (.file e))
        (·.rename (temporaryPath p) p)) := by
  rw [save, makeRoom]
  cases p.parent? with
  | none => simp only [Option.elim_none, pure_bind]
  | some directory =>
    by_cases hempty : directory.text = ""
    · simp only [Option.elim_some, if_pos hempty, pure_bind]
    · simp only [Option.elim_some, if_neg hempty]

theorem write_eq_ok {task : FileTask} {p : Path} {content : String} {fs fs' : FileSystem} :
    FileAction.write task p content fs = .ok () fs' ↔ fs.write p content = .ok fs' := by
  rw [FileAction.write, FileAction.ofOperation]
  cases fs.write p content with
  | ok made => simp
  | error e => simp

theorem move_eq_ok {explain : FileError → Failure} {source target : Path} {fs fs' : FileSystem} :
    FileAction.ofOperation explain (·.rename source target) fs = .ok () fs'
      ↔ fs.rename source target = .ok fs' := by
  rw [FileAction.ofOperation]
  cases fs.rename source target with
  | ok made => simp
  | error e => simp

/-- The file systems between the steps of saving. -/
theorem exists_of_save {r : MergeReport} {p : Path} {pretty : Bool} {fs fs' : FileSystem}
    (h : r.save p pretty fs = .ok () fs') :
    ∃ made written, makeRoom p fs = .ok () made
      ∧ made.write (temporaryPath p) (r.text pretty) = .ok written
      ∧ written.rename (temporaryPath p) p = .ok fs' := by
  rw [save_eq] at h
  obtain ⟨_, made, hmade, h⟩ := exists_of_bind_ok h
  obtain ⟨_, written, hwritten, h⟩ := exists_of_bind_ok h
  exact ⟨made, written, hmade, write_eq_ok.1 hwritten, move_eq_ok.1 h⟩

/-- To make room is to make directories, so all files stay. -/
theorem keepsExcept_makeRoom {p : Path} {fs fs' : FileSystem} {changed : Location → Prop}
    (h : makeRoom p fs = .ok () fs') : fs.KeepsExcept changed fs' := by
  rw [makeRoom] at h
  cases hparent : p.parent? with
  | none =>
    rw [hparent] at h
    cases h
    exact .refl fs changed
  | some directory =>
    simp only [hparent, Option.elim_some] at h
    split at h
    · cases h
      exact .refl fs changed
    · exact FileAction.keepsExcept_createDirectories h

/-- Saving a report changes the file and the one beside it. -/
theorem keepsExcept_save {r : MergeReport} {p : Path} {pretty : Bool} {fs fs' : FileSystem}
    (h : r.save p pretty fs = .ok () fs') :
    fs.KeepsExcept (fs'.LedTo [temporaryPath p, p]) fs' := by
  obtain ⟨made, written, hmade, hwrite, hmove⟩ := exists_of_save h
  have hwritten : made.KeepsExcept (written.LedTo [temporaryPath p]) written :=
    (FileSystem.keepsExcept_update hwrite).afterwards
  have hmoved : written.KeepsExcept (written.LedTo [temporaryPath p, p]) fs' :=
    FileSystem.keepsExcept_rename hmove
      (fun _ hplace => ⟨_, by simp, hplace⟩) (fun _ hplace => ⟨_, by simp, hplace⟩)
  exact (keepsExcept_makeRoom hmade).trans
    (hwritten.andThen hmoved.afterwards (by simp))

/-- The file beside the one asked for is gone in the end. -/
theorem at?_of_save {r : MergeReport} {p : Path} {pretty : Bool} {fs fs' : FileSystem}
    (h : r.save p pretty fs = .ok () fs') :
    ∃ start stop, fs'.locate (temporaryPath p) = .ok start ∧ fs'.locate p = .ok stop
      ∧ (start ≠ stop → fs'.at? start = none) := by
  obtain ⟨_, written, -, -, hmove⟩ := exists_of_save h
  have hkeeps : written.KeepsExcept (fun _ => True) fs' :=
    FileSystem.keepsExcept_rename hmove (fun _ _ => trivial) (fun _ _ => trivial)
  obtain ⟨start, stop, _, hstart, hstop, -, -, hfile, -, rfl⟩ := FileSystem.rename_eq_ok.1 hmove
  have hfree : written.at? start ≠ some .directory := by simp [hfile]
  have hroot := FileSystem.ne_nil_of_at? hfree
  refine ⟨start, stop, hkeeps.locate hstart, hkeeps.locate hstop, fun hne => ?_⟩
  rw [FileSystem.at?_put_of_ne _ _ hne, FileSystem.at?_erase_self _ hroot]

/-- A saved report is the content of the file. -/
theorem read_of_save {r : MergeReport} {p : Path} {pretty : Bool} {fs fs' : FileSystem}
    (h : r.save p pretty fs = .ok () fs') : fs'.read p = .ok (r.text pretty) := by
  obtain ⟨_, _, -, hwrite, hmove⟩ := exists_of_save h
  exact FileSystem.read_of_rename hmove (FileSystem.read_of_write hwrite)

/-- A file that holds the text of a report is loaded as the report. -/
theorem load_of_read {r : MergeReport} (hr : r.Fits) {p : Path} {pretty : Bool} {fs : FileSystem}
    (h : fs.read p = .ok (r.text pretty)) : load fs p = .ok r := by
  have hfor : fs.readFor .readingReport p = .ok (r.text pretty) := FileSystem.readFor_of_read h
  rw [load, hfor]
  show (codec.decode (r.text pretty)).mapError _ = _
  rw [decode_text hr]
  rfl

/-- The file beside a path has a name that starts with a dot. -/
theorem getLast?_steps_temporaryPath (p : Path) :
    (temporaryPath p).steps.getLast? = some ("." ++ p.fileName?.getD "report.json" ++ ".tmp") := by
  have hname : '/' ∉ (p.fileName?.getD "report.json").toList := by
    cases hp : p.fileName? with
    | none => decide
    | some name => exact Path.not_mem_of_fileName? hp
  exact Path.getLast?_steps_join _ (by simp [hname]) (by simp)

/-- The file beside a path has a name of its own. -/
theorem isNaming_temporaryPath (p : Path) : FileSystem.isNaming (temporaryPath p) = true := by
  rw [FileSystem.isNaming, getLast?_steps_temporaryPath]
  have hlong : ∀ short : String, short.length < 5 →
      "." ++ p.fileName?.getD "report.json" ++ ".tmp" ≠ short := by
    rintro short hshort rfl
    rw [String.length_append, String.length_append, show ".".length = 1 from rfl,
      show ".tmp".length = 4 from rfl] at hshort
    omega
  simp [hlong "." (by decide), hlong ".." (by decide)]

/-- A report can be saved to a path: the directories above it can be made, it names a file, and once
the directories are there, the file and the one beside it can be written. -/
def Accepts (fs : FileSystem) (p : Path) : Prop :=
  ∃ made, makeRoom p fs = .ok () made ∧ FileSystem.isNaming p = true
    ∧ (∃ fs', made.write p "" = .ok fs') ∧ ∃ fs', made.write (temporaryPath p) "" = .ok fs'

/-- **A report is saved** where one can be saved. What is asked for with empty files is enough: the
content of a file is nothing to whether it can be written. -/
theorem exists_save (r : MergeReport) (pretty : Bool) {fs : FileSystem} {p : Path}
    (h : Accepts fs p) : ∃ fs', r.save p pretty fs = .ok () fs' := by
  obtain ⟨made, hmade, hnaming, ⟨_, hwrite⟩, _, hbeside⟩ := h
  obtain ⟨stop, _, hstop, hslash, hfree, -⟩ := FileSystem.update_eq_ok hwrite
  obtain ⟨start, _, hstart, hslash', hfree', -⟩ := FileSystem.update_eq_ok hbeside
  have hwritten := FileSystem.write_of_locate hstart hslash' hfree' (r.text pretty)
  have hkeeps : made.KeepsExcept (fun _ => True) (made.put start (.file (r.text pretty))) :=
    .put hfree' (fun _ _ => trivial) _
  have hroot := FileSystem.ne_nil_of_at? hfree'
  have hstill : (made.put start (.file (r.text pretty))).at? stop ≠ some .directory := by
    rw [FileSystem.at?_put _ _ _ _ hroot]
    split
    · simp
    · exact hfree
  have hmove := FileSystem.rename_eq_ok.2 ⟨start, stop, r.text pretty, hkeeps.locate hstart,
    hkeeps.locate hstop, ⟨isNaming_temporaryPath p, hnaming⟩, ⟨hslash', hslash⟩,
    FileSystem.at?_put_self _ _ hroot, hstill, rfl⟩
  refine ⟨((made.put start (.file (r.text pretty))).erase start).put stop (.file (r.text pretty)),
    ?_⟩
  rw [save_eq, bind_ok hmade, bind_ok (write_eq_ok.2 hwritten)]
  exact move_eq_ok.2 hmove

end MergeReport

/-! ## The main result -/

/-- **Nothing is lost in what is stored.** Every report within the bounds of its numbers is read
back from its JSON, in either style. So two reports have one text only if they are equal, and a
missing signature or body is not taken for an empty one. What was saved to a path is loaded from it,
and saving goes through wherever there can be directories and files under the names asked for. Every
ledger is read back from its JSON, too. -/
theorem reports_read_back :
    (∀ r : MergeReport, r.Fits → ∀ pretty,
      MergeReport.codec.decode (r.text pretty) = .ok r
        ∧ (∀ fs fs' p, r.save p pretty fs = .ok () fs' → MergeReport.load fs' p = .ok r)
        ∧ ∀ fs p, MergeReport.Accepts fs p →
          ∃ fs', r.save p pretty fs = .ok () fs' ∧ MergeReport.load fs' p = .ok r)
      ∧ (∀ r s : MergeReport, r.Fits → s.Fits → ∀ pretty pretty',
        r.text pretty = s.text pretty' → r = s)
      ∧ ∀ l : Ledger, l.Narrow → ∀ style,
        Ledger.codec.decode (Ledger.codec.encodeText style l) = .ok l := by
  have hload : ∀ r : MergeReport, r.Fits → ∀ pretty fs fs' p, r.save p pretty fs = .ok () fs' →
      MergeReport.load fs' p = .ok r :=
    fun r hr pretty fs fs' p hsave => MergeReport.load_of_read hr (MergeReport.read_of_save hsave)
  refine ⟨fun r hr pretty => ⟨MergeReport.decode_text hr pretty, hload r hr pretty,
    fun fs p haccepts => ?_⟩, fun r s hr hs pretty pretty' htext => ?_, fun l hl style => ?_⟩
  · obtain ⟨fs', hsave⟩ := MergeReport.exists_save r pretty haccepts
    exact ⟨fs', hsave, hload r hr pretty fs fs' p hsave⟩
  · have hread := MergeReport.decode_text hr pretty
    rw [htext, MergeReport.decode_text hs pretty'] at hread
    exact (Except.ok.inj hread).symm
  · exact Codec.decode_encodeText (Ledger.readsBack hl) style

/-- A report with characters that are escaped, and with a signature that may be missing or empty. -/
def sampleReport (signature : Option String) : MergeReport :=
  ⟨"1_abcdef0", .ofUnixTime 86399 123456789, .resolve, "dir/\"a\"\n\x01é.cs", "",
    [⟨1, .methodConflict, "F", "N.T", .keepBoth, signature, some "", none⟩],
    [⟨1, .keepFirst, .explicit⟩]⟩

/-- Such reports are kept apart, and can be saved in a directory that is not there yet. -/
theorem reports_read_back_sample :
    let fs : FileSystem := ⟨["home"], [(["home"], .directory)]⟩
    let ledger : Ledger := ⟨(sampleReport (some "")).entries⟩
    (∀ signature pretty,
      MergeReport.codec.decode ((sampleReport signature).text pretty)
        = .ok (sampleReport signature))
      ∧ (sampleReport none).text true ≠ (sampleReport (some "")).text true
      ∧ (∃ fs', (sampleReport none).save ⟨"out/r.json"⟩ true fs = .ok () fs'
        ∧ MergeReport.load fs' ⟨"out/r.json"⟩ = .ok (sampleReport none))
      ∧ Ledger.codec.decode (Ledger.codec.encodeText .compact ledger) = .ok ledger := by
  intro fs ledger
  obtain ⟨hreports, hdistinct, hledgers⟩ := reports_read_back
  have hfits : ∀ signature, (sampleReport signature).Fits := by
    intro signature
    have hid : 1 < Codec.bound32 := by decide
    have hyear : TimeReader.hasDays (Instant.ofUnixTime 86399 123456789).date.year = true := by
      decide
    exact ⟨fun e he => List.mem_singleton.1 he ▸ hid, fun d hd => List.mem_singleton.1 hd ▸ hid,
      hyear⟩
  have haccepts : MergeReport.Accepts fs ⟨"out/r.json"⟩ :=
    ⟨⟨["home"], [(["home", "out"], .directory), (["home"], .directory)]⟩, rfl, by decide +kernel,
      ⟨_, rfl⟩, ⟨_, rfl⟩⟩
  refine ⟨fun signature pretty => (hreports _ (hfits signature) pretty).1, fun htext => ?_,
    (hreports _ (hfits none) true).2.2 fs _ haccepts, hledgers ledger (hfits (some "")).entries _⟩
  have hsame := hdistinct _ _ (hfits none) (hfits (some "")) true true htext
  simp [sampleReport] at hsame

end ModuleMerge
