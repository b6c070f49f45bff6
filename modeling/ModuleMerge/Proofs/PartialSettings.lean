import ModuleMerge.Proofs.JsonPartial
import ModuleMerge.Proofs.Reports
import ModuleMerge.Settings

/-!
# Partial files of settings

The defaults that take the place of what a file of settings leaves out are given more than once:
for a section that is missing, and again for each field of a section that is there. They have to
agree, for every choice of what is missing.

With three sections and seven fields there are more than two hundred choices, and no list of cases
is made of them. A codec for a field with a default gives the default if the member is gone, and
what the codec of its value gives if it is there (`Field.gives_withDefault`); the record is the sum
of its fields. So each section takes a few lines, and the whole is one more record whose fields are
the sections. That both sorts of defaults agree is seen where the two ends meet: the settings that
are read are written down beforehand, field by field, and must come out.

A field may also be there as `null`, which for the language and the directory is a value as any
other, and not a missing field.

* `Settings.without` are the settings with the defaults in place of what is gone.
* `Settings.takes` says that they are what is read from every text that shows the settings, but for
  what is gone.
* `Settings.decode_partial` is the statement for files of settings.
-/

set_option autoImplicit false

namespace ModuleMerge

open Acting Json

/-! ## Settings without some parts -/

variable (gone : List String → Bool)

/-- The merge section with the defaults in place of the fields that are gone. -/
def MergeSettings.without (s : MergeSettings) : MergeSettings where
  language := if gone ["language"] then MergeSettings.default.language else s.language
  annotationTag :=
    if gone ["annotation_tag"] then MergeSettings.default.annotationTag else s.annotationTag
  allowSyntaxErrors :=
    if gone ["allow_syntax_errors"] then MergeSettings.default.allowSyntaxErrors
    else s.allowSyntaxErrors

/-- The log section with the defaults in place of the fields that are gone. -/
def LoggingSettings.without (s : LoggingSettings) : LoggingSettings where
  filter := if gone ["filter"] then LoggingSettings.default.filter else s.filter
  directory := if gone ["dir"] then LoggingSettings.default.directory else s.directory

/-- The report section with the defaults in place of the fields that are gone. -/
def ReportSettings.without (s : ReportSettings) : ReportSettings where
  includeBodies :=
    if gone ["include_bodies"] then ReportSettings.default.includeBodies else s.includeBodies
  pretty := if gone ["pretty"] then ReportSettings.default.pretty else s.pretty

/-- Settings with the defaults in place of the sections and fields that are gone. -/
def Settings.without (s : Settings) : Settings where
  merge :=
    if gone ["merge"] then Settings.default.merge
    else s.merge.without fun path => gone ("merge" :: path)
  logging :=
    if gone ["logging"] then Settings.default.logging
    else s.logging.without fun path => gone ("logging" :: path)
  report :=
    if gone ["report"] then Settings.default.report
    else s.report.without fun path => gone ("report" :: path)

/-- With nothing gone, no default is needed. -/
theorem Settings.without_nothingGone (s : Settings) : s.without nothingGone = s := rfl

theorem Language.takes (l : Language) : Language.codec.Takes gone l l := by
  refine Codec.takes_enumeration gone ?_
  cases l <;> rfl

theorem Path.takes (p : Path) : Path.codec.Takes gone p p :=
  Codec.takes_via gone (Codec.takes_textAs gone "path string" p.text)

theorem MergeSettings.takes (s : MergeSettings) : codec.Takes gone s (s.without gone) := by
  have hlanguage : ∀ gone, Language.codec.nullable.Takes gone s.language s.language :=
    fun gone => Codec.takes_nullable gone (fun l => ⟨Language.takes gone l, Value.noConfusion⟩) _
  refine Codec.takes_record "MergeSettings" _ _ ((s.without gone).language,
    (s.without gone).annotationTag, (s.without gone).allowSyntaxErrors, ())
    ⟨by decide, by decide, by decide, trivial⟩ ?_
  rintro members ⟨hshown, htag, hallow, -⟩
  exact ⟨Field.gives_withDefault (hlanguage _) hshown,
    Field.gives_withDefault (Codec.takes_textAs _ _ _) htag,
    Field.gives_withDefault (Codec.takes_bool _ _) hallow, trivial⟩

theorem LoggingSettings.takes (s : LoggingSettings) : codec.Takes gone s (s.without gone) := by
  have hdirectory : ∀ gone, Path.codec.nullable.Takes gone s.directory s.directory :=
    fun gone => Codec.takes_nullable gone (fun p => ⟨Path.takes gone p, Value.noConfusion⟩) _
  refine Codec.takes_record "LoggingSettings" _ _ ((s.without gone).filter,
    (s.without gone).directory, ()) ⟨by decide, by decide, trivial⟩ ?_
  rintro members ⟨hfilter, hshown, -⟩
  exact ⟨Field.gives_withDefault (Codec.takes_textAs _ _ _) hfilter,
    Field.gives_withDefault (hdirectory _) hshown, trivial⟩

theorem ReportSettings.takes (s : ReportSettings) : codec.Takes gone s (s.without gone) := by
  refine Codec.takes_record "ReportSettings" _ _ ((s.without gone).includeBodies,
    (s.without gone).pretty, ()) ⟨by decide, by decide, trivial⟩ ?_
  rintro members ⟨hbodies, hpretty, -⟩
  exact ⟨Field.gives_withDefault (Codec.takes_bool _ _) hbodies,
    Field.gives_withDefault (Codec.takes_bool _ _) hpretty, trivial⟩

namespace Settings

theorem takes (s : Settings) : codec.Takes gone s (s.without gone) := by
  refine Codec.takes_record "Settings" _ _ ((s.without gone).merge, (s.without gone).logging,
    (s.without gone).report, ()) ⟨by decide, by decide, by decide, trivial⟩ ?_
  rintro members ⟨hmerge, hlogging, hreport, -⟩
  exact ⟨Field.gives_withDefault (MergeSettings.takes _ _) hmerge,
    Field.gives_withDefault (LoggingSettings.takes _ _) hlogging,
    Field.gives_withDefault (ReportSettings.takes _ _) hreport, trivial⟩

/-! ## Files

What is saved is the whole of the settings, so loading it is the case in which nothing is gone. The
directories above the path may have to be made, which can fail, and so can writing. -/

/-- Makes the directories above a path, as far as it names any. -/
def makeRoom (p : Path) : FileAction Unit :=
  p.parent?.elim (pure ()) FileAction.createDirectories

theorem save_eq_ok {s : Settings} {p : Path} {fs fs' : FileSystem} :
    s.save p fs = .ok () fs' ↔ ∃ made, makeRoom p fs = .ok () made
      ∧ made.write p (codec.encodeText .pretty s) = .ok fs' := by
  have hsave : s.save p = (do
      makeRoom p
      FileAction.write .writingSettings p (codec.encodeText .pretty s)) := by
    rw [save, makeRoom]
    cases p.parent? <;> rfl
  rw [hsave]
  constructor
  · intro h
    obtain ⟨_, made, hmade, h⟩ := exists_of_bind_ok h
    exact ⟨made, hmade, MergeReport.write_eq_ok.1 h⟩
  · rintro ⟨made, hmade, h⟩
    rw [bind_ok hmade]
    exact MergeReport.write_eq_ok.2 h

/-- Settings can be saved to a path: the directories above it can be made, and then the file can be
written. -/
def Accepts (fs : FileSystem) (p : Path) : Prop :=
  ∃ made, makeRoom p fs = .ok () made ∧ ∃ fs', made.write p "" = .ok fs'

theorem exists_save (s : Settings) {fs : FileSystem} {p : Path} (h : Accepts fs p) :
    ∃ fs', s.save p fs = .ok () fs' := by
  obtain ⟨made, hmade, _, hwrite⟩ := h
  obtain ⟨stop, _, hstop, hslash, hfree, -⟩ := FileSystem.update_eq_ok hwrite
  exact ⟨_, save_eq_ok.2 ⟨made, hmade, FileSystem.write_of_locate hstop hslash hfree _⟩⟩

theorem load_of_read {s : Settings} {text : String} (h : codec.decode text = .ok s)
    {fs : FileSystem} {p : Path} (hread : fs.read p = .ok text) : load fs p = .ok s := by
  have hfor : fs.readFor .readingSettings p = .ok text := FileSystem.readFor_of_read hread
  rw [load, hfor]
  show (codec.decode text).mapError _ = _
  rw [h]
  rfl

/-- No two sections have one key, and no two fields of a section. -/
theorem keysApart_encode (s : Settings) : (codec.encode s).KeysApart := by
  have hsections : ["merge", "logging", "report"].Nodup := by decide
  have hmerge : ["language", "annotation_tag", "allow_syntax_errors"].Nodup := by decide
  have hlogging : ["filter", "dir"].Nodup := by decide
  have hreport : ["include_bodies", "pretty"].Nodup := by decide
  obtain ⟨⟨language, _, _⟩, ⟨_, directory⟩, _⟩ := s
  refine ⟨hsections, ⟨hmerge, ?_, trivial, trivial, trivial⟩, ⟨hlogging, trivial, ?_, trivial⟩,
    ⟨hreport, trivial, trivial, trivial⟩, trivial⟩
  · cases language <;> trivial
  · cases directory <;> trivial

/-- What is written for settings is read back. -/
theorem decode_encodeText (s : Settings) (style : Style) :
    codec.decode (codec.encodeText style s) = .ok s := by
  have hshown := Value.shownBy_deleting style _ nothingGone 0 s.keysApart_encode
  have h := Codec.decode_of_reads (takes nothingGone s _ hshown) allBlank_nil allBlank_nil
  rwa [Value.chars_written, Value.deleting_nothingGone, without_nothingGone, List.nil_append,
    List.append_nil] at h

/-- **Files of settings may be partial.** Whatever sections and fields are left out, whatever else
there is in the file, and in whatever order: what is left out has its default, and everything else
is as it is shown. This is so for what is left when sections and fields are deleted. If nothing is
left out, what was saved is loaded, and settings are saved wherever a file can be written. -/
theorem decode_partial :
    (∀ (s : Settings) (gone : List String → Bool) (w : Written) (before after : Gap),
      (codec.encode s).ShownBy gone w →
        let text := String.ofList (before.chars ++ (w.chars ++ after.chars))
        codec.decode text = .ok (s.without gone)
          ∧ ∀ fs p, fs.read p = .ok text → load fs p = .ok (s.without gone))
      ∧ (∀ (s : Settings) gone style,
        codec.decode (((codec.encode s).deleting gone).render style) = .ok (s.without gone))
      ∧ (∀ (s : Settings) fs fs' p, s.save p fs = .ok () fs' → load fs' p = .ok s)
      ∧ ∀ (s : Settings) fs p, Accepts fs p →
        ∃ fs', s.save p fs = .ok () fs' ∧ load fs' p = .ok s := by
  have hdecode : ∀ (s : Settings) (gone : List String → Bool) (w : Written) (before after : Gap),
      (codec.encode s).ShownBy gone w →
        codec.decode (String.ofList (before.chars ++ (w.chars ++ after.chars)))
          = .ok (s.without gone) :=
    fun s gone w before after h =>
      Codec.decode_of_reads (takes gone s w h) before.allBlank after.allBlank
  have hdeleting : ∀ (s : Settings) gone style,
      codec.decode (((codec.encode s).deleting gone).render style) = .ok (s.without gone) := by
    intro s gone style
    have h := hdecode s gone _ .none .none
      (Value.shownBy_deleting style _ gone 0 s.keysApart_encode)
    rwa [Value.chars_written, Gap.chars_none, List.nil_append, List.append_nil] at h
  have hload : ∀ (s : Settings) fs fs' p, s.save p fs = .ok () fs' → load fs' p = .ok s := by
    intro s fs fs' p hsave
    obtain ⟨_, -, hwrite⟩ := save_eq_ok.1 hsave
    have htext := hdeleting s nothingGone .pretty
    rw [Value.deleting_nothingGone, without_nothingGone] at htext
    exact load_of_read htext (FileSystem.read_of_write hwrite)
  refine ⟨fun s gone w before after h => ?_, hdeleting, hload, fun s fs p haccepts => ?_⟩
  · have htext := hdecode s gone w before after h
    exact ⟨htext, fun fs p hread => load_of_read htext hread⟩
  · obtain ⟨fs', hsave⟩ := exists_save s haccepts
    exact ⟨fs', hsave, hload s fs fs' p hsave⟩

/-- Settings in which most has not its default. -/
def sampleSettings : Settings :=
  ⟨⟨some .java, "mrg", true⟩, ⟨"debug", none⟩, ⟨false, false⟩⟩

/-- A member without blanks. -/
def sampleMember (key : String) (value : Written) : WrittenMember :=
  ⟨.none, .ofText key, .none, .none, value, .none⟩

/-- A file with a note of its own, and with one field of each of two sections. -/
def sampleFile : Written :=
  .object [
    sampleMember "note" (.number (.ofNat 1)),
    sampleMember "logging" (.object [sampleMember "dir" .null] .none),
    sampleMember "report" (.object [sampleMember "pretty" (.bool false)] .none)] .none

/-- A file of a few fields is read with defaults for the others, and settings saved below a
directory that is not there yet are loaded again. -/
theorem decode_partial_sample :
    let fs : FileSystem := ⟨["home"], [(["home"], .directory)]⟩
    codec.decode "\x7b\"note\":1,\"logging\":\x7b\"dir\":null\x7d,\"report\":\x7b\"pretty\":false\x7d\x7d"
        = .ok ⟨⟨none, "merge", false⟩, ⟨"info", none⟩, ⟨true, false⟩⟩
      ∧ ∃ fs', sampleSettings.save ⟨"out/s.json"⟩ fs = .ok () fs'
        ∧ load fs' ⟨"out/s.json"⟩ = .ok sampleSettings := by
  intro fs
  obtain ⟨hpartial, -, -, hsaved⟩ := decode_partial
  let gone : List String → Bool := fun path =>
    [["merge"], ["logging", "filter"], ["report", "include_bodies"]].contains path
  have hshown : (codec.encode sampleSettings).ShownBy gone sampleFile := by
    refine ⟨_, _, rfl, by simp [sampleMember], .of_gone rfl rfl, .of_single rfl rfl ?_,
      .of_single rfl rfl ?_, trivial⟩
    · exact ⟨_, _, rfl, by simp [sampleMember], .of_gone rfl rfl, .of_single rfl rfl rfl, trivial⟩
    · exact ⟨_, _, rfl, by simp [sampleMember], .of_gone rfl rfl, .of_single rfl rfl rfl, trivial⟩
  have haccepts : Accepts fs ⟨"out/s.json"⟩ := ⟨_, rfl, _, rfl⟩
  exact ⟨(hpartial _ gone _ .none .none hshown).1, hsaved _ fs _ haccepts⟩

end Settings

end ModuleMerge
