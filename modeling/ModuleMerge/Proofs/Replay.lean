import ModuleMerge.CommandLine.Run
import ModuleMerge.Proofs.ChoiceTable
import ModuleMerge.Proofs.Files
import ModuleMerge.Proofs.JsonCodec
import ModuleMerge.Proofs.RoundTrip
import ModuleMerge.Proofs.Steps

/-!
# Reviews and their replay

In a review the user is asked for all choices, which can be saved to a file. A later merge of the
same inputs with that file gives what the review gave. Nothing but the file goes from the one run to
the other, so this rests on the file: what is read from it has to be the very table of choices that
was written, where a word that could not be read would silently count as keeping both.

A run is a chain of steps on a session, each of which may fail. To say something about the two
passes of a review and about the file between them, the chain is taken apart: `ReviewRun` has a
field for each step, with the sessions before and after it. That keeps the argument apart from the
monad. The later run is computed forward in the same way, with what is known of its files.

The second pass of a review and the pass of the later merge have the same inputs, the same settings
and the same table. They are run in other environments, though, and after other events, and the one
thing that a pass uses of its environment is the parser.

That the ids of the differences have 32 bits is a condition, since ids in the file are read as such
numbers. What was asked about are differences of the first pass, so the condition is on those.

* `Resolutions.ofJson_toJson` says that a saved table is read back.
* `findPass_again` says that a pass finds what it found, whatever was logged before and whenever it
  is run.
* `ReviewRun` is a review that went through, step by step, and `exists_reviewRun` gives the steps of
  one.
* `replay_review` is the main result.
-/

set_option autoImplicit false

namespace ModuleMerge

open Json

/-! ## Saved choices -/

namespace Resolutions

/-- All ids have 32 bits. -/
def Narrow (r : Resolutions) : Prop :=
  ∀ pair ∈ r.choices, pair.1 < Codec.bound32

instance (r : Resolutions) : Decidable r.Narrow :=
  inferInstanceAs (Decidable (∀ pair ∈ r.choices, pair.1 < Codec.bound32))

/-- What is written of a table is a list of its records. -/
theorem readPayload_toJson {r : Resolutions} (h : r.Narrow) :
    readPayload r.toJson = .ok r.toRecords := by
  refine Codec.decode_encodeText (Codec.readsBack_list fun record hrecord => ?_) .pretty
  obtain ⟨pair, hpair, rfl⟩ := List.mem_map.1 hrecord
  have hid : (Field.aliased "id" "Id" .natural32).ReadsBack pair.1 :=
    Field.readsBack_of_written rfl (Codec.readsBack_natural32 (h pair hpair))
  have hchoice : (Field.aliased "choice" "Choice" .text).ReadsBack pair.2.name :=
    Field.readsBack_of_written rfl (Codec.readsBack_textAs "a string" pair.2.name)
  exact Codec.readsBack_record "ResolutionRecord"
    ⟨hid, by decide, hchoice, by decide, trivial⟩ rfl

/-- **A saved table is read back.** -/
theorem ofJson_toJson {r : Resolutions} (h : r.Narrow) : ofJson r.toJson = .ok r := by
  rw [ofJson, readPayload_toJson h, Except.map, ofRecords_toRecords]

end Resolutions

/-- A pass with a saved table is the pass with the table. -/
theorem MergeConfig.resolveJson_toJson (config : MergeConfig) (first second : Source)
    {r : Resolutions} (h : r.Narrow) :
    config.resolveJson first second r.toJson = config.resolve first second r := by
  rw [resolveJson, Resolutions.ofJson_toJson h]

namespace CommandLine

open Acting

/-! ## Steps in a row

A finding collects events and does not touch the session; what it collected is logged when it has
come to its end. -/

/-- A question about the files changes nothing. -/
theorem exists_of_look {α : Type} {question : FileSystem → Except Failure α} {s t : Session} {a : α}
    (h : Step.look question s = .ok a t) : question s.files = .ok a ∧ t = s := by
  rw [Step.look] at h
  cases hq : question s.files with
  | ok b =>
    rw [hq] at h
    cases h
    exact ⟨rfl, rfl⟩
  | error e =>
    rw [hq] at h
    simp at h

/-- What was found was logged on the way. -/
theorem recordAll_of_ofFinding {α : Type} {finding : Finding α} {s t : Session} {a : α}
    (h : Step.ofFinding finding s = .ok a t) :
    ∃ events, finding [] = .ok a events ∧ Step.recordAll events s = .ok () t := by
  rw [Step.ofFinding] at h
  cases hf : finding [] with
  | ok b events =>
    rw [hf] at h
    obtain ⟨_, between, hrecords, hpure⟩ := exists_of_bind_ok h
    cases hpure
    exact ⟨events, rfl, hrecords⟩
  | error e events =>
    rw [hf] at h
    obtain ⟨_, between, -, hthrow⟩ := exists_of_bind_ok h
    cases hthrow

theorem exists_of_ofFinding {α : Type} {finding : Finding α} {s t : Session} {a : α}
    (h : Step.ofFinding finding s = .ok a t) : ∃ events, finding [] = .ok a events :=
  (recordAll_of_ofFinding h).imp fun _ hfound => hfound.1

/-- What was found is logged and handed on. -/
theorem ofFinding_of_ok {α β : Type} {finding : Finding α} {a : α} {events : List Event}
    (h : finding [] = .ok a events) (next : α → Step β) :
    (Step.ofFinding finding >>= next) = (Step.recordAll events >>= fun _ => next a) := by
  rw [Step.ofFinding, h]
  simp only [bind_assoc, pure_bind]

/-! ## Passes

What a pass gives is a matter of the inputs, the settings and the choices alone. -/

/-- A text as a source, with the tree that it is parsed to. -/
def Environment.source (env : Environment) (language : Language) (text : String) : Source :=
  ⟨text, env.parse language text⟩

/-- What a pass reports goes behind what was logged before. -/
theorem ofReport_eq (report : PassReport) (before : List Event) :
    Finding.ofReport report before
      = match report.run with
        | .ok run => .ok run.output (before ++ report.events)
        | .error e => .error (.bare (.merge e)) (before ++ report.events) := by
  obtain ⟨events, run⟩ := report
  cases run <;> rfl

section

variable {env env' : Environment} {settings : Settings} {config : MergeConfig} {inputs : Inputs}
  {resolutions : Option Resolutions} {output : MergeOutput} {sinks : Sinks}
  {before after : List Event} {first second : Path} {s s' : Session}

/-- What a pass finds is what it gives. -/
theorem exists_run_of_findPass
    (h : findPass env config inputs resolutions before = .ok output after) :
    ∃ run, config.run (env.source config.language inputs.first)
        (env.source config.language inputs.second) resolutions = .ok run
      ∧ run.output = output := by
  rw [findPass, ofReport_eq] at h
  cases hrun : config.run (env.source config.language inputs.first)
      (env.source config.language inputs.second) resolutions with
  | ok run =>
    simp only [Environment.source] at hrun
    simp only [hrun, PassReport.ofRun] at h
    cases h
    exact ⟨run, rfl, rfl⟩
  | error e =>
    simp only [Environment.source] at hrun
    simp [hrun, PassReport.ofRun] at h

/-- A pass gives what it gives whatever was logged before, and whenever it is run. -/
theorem findPass_again (h : findPass env config inputs resolutions before = .ok output after)
    (henv : env'.parse = env.parse) (earlier : List Event) :
    ∃ events, findPass env' config inputs resolutions earlier = .ok output events := by
  obtain ⟨run, hrun, rfl⟩ := exists_run_of_findPass h
  simp only [Environment.source] at hrun
  refine ⟨earlier ++ run.events, ?_⟩
  rw [findPass, ofReport_eq]
  simp only [henv, hrun, PassReport.ofRun]

/-- The choices that a file holds are those that were saved in it. -/
theorem findResolutions_of_saved {fs : FileSystem} {p : Path} {r : Resolutions} (hr : r.Narrow)
    (h : fs.read p = .ok r.toJson) (before : List Event) :
    ∃ after, findResolutions fs p before = .ok r after := by
  have hread : Finding.ofExcept (fs.readFor .readingInput p) before = .ok r.toJson before := by
    rw [FileSystem.readFor, h]
    rfl
  rw [findResolutions, bind_ok hread, Resolutions.readPayload_toJson hr]
  simp only [Resolutions.ofRecords_toRecords]
  exact ⟨_, rfl⟩

/-- **A later merge finds what a pass found**, if it has the same inputs and a file with the choices
of that pass. -/
theorem findMerged_again {fs : FileSystem} {p : Path} {r : Resolutions} (hr : r.Narrow)
    (h : findPass env (configFor settings first sinks) inputs (some r) before = .ok output after)
    (henv : env'.parse = env.parse) {sinks' : Sinks} (hsinks : sinks'.language = sinks.language)
    (hinputs : Inputs.read fs first second = .ok inputs) (hsaved : fs.read p = .ok r.toJson) :
    ∃ events, findMerged env' settings fs first second (some p) sinks' []
      = .ok output events := by
  have hread : Finding.ofExcept (Inputs.read fs first second) [] = .ok inputs [] := by
    rw [hinputs]
    rfl
  obtain ⟨loaded, hloaded⟩ := findResolutions_of_saved hr hsaved []
  have hsome : (some <$> findResolutions fs p) [] = .ok (some r) loaded := by
    rw [map_eq_pure_bind, bind_ok hloaded]
    rfl
  have hconfig : configFor settings first sinks' = configFor settings first sinks := by
    rw [configFor, configFor, hsinks]
  rw [findMerged, bind_ok hread]
  simp only
  rw [bind_ok hsome, hconfig]
  exact findPass_again h henv _

end

/-! ## Reviews -/

/-- A review that went through, from one session to another: what it read and found, what the user
chose and what came of it, and the sessions between its steps. -/
structure ReviewRun (env : Environment) (settings : Settings) (first second saved : Path)
    (sinks : Sinks) (s s' : Session) where
  inputs : Inputs
  /-- What the pass gave in which every difference takes its default. -/
  detected : MergeOutput
  choices : Resolutions
  /-- What the pass with the user's choices gave. -/
  output : MergeOutput
  started : Session
  found : Session
  asking : Session
  asked : Session
  stored : Session
  told : Session
  ready : Session
  reads : Inputs.read s.files first second = .ok inputs
  starts : Step.record (.languageSelected (configFor settings first sinks).language) s
    = .ok () started
  finds : Step.ofFinding (findPass env (configFor settings first sinks) inputs none) started
    = .ok detected found
  shows : ∃ text, Step.printError text found = .ok () asking
  asks : askChoices detected.ledger.choosable .empty asking = .ok choices asked
  stores : Step.onFiles (.write .writingResolutions saved choices.toJson) asked = .ok () stored
  tells : ∃ text, Step.printError text stored = .ok () told
  resolves : Step.ofFinding
    (findPass env (configFor settings first sinks) inputs (some choices)) told = .ok output ready
  writes : emit env settings first second output sinks ready = .ok () s'

section

variable {env : Environment} {settings : Settings} {first second saved : Path} {sinks : Sinks}
  {s s' : Session}

/-- **A review goes through step by step.** -/
theorem exists_reviewRun
    (h : review env settings first second (some saved) sinks s = .ok () s') :
    Nonempty (ReviewRun env settings first second saved sinks s s') := by
  rw [review] at h
  obtain ⟨inputs, t, hlook, h⟩ := exists_of_bind_ok h
  obtain ⟨hreads, hsame⟩ := exists_of_look hlook
  rw [hsame] at h
  obtain ⟨_, started, hstarts, h⟩ := exists_of_bind_ok h
  obtain ⟨detected, found, hfinds, h⟩ := exists_of_bind_ok h
  obtain ⟨_, asking, hshows, h⟩ := exists_of_bind_ok h
  obtain ⟨choices, asked, hasks, h⟩ := exists_of_bind_ok h
  obtain ⟨_, stored, hstores, h⟩ := exists_of_bind_ok h
  obtain ⟨_, told, htells, h⟩ := exists_of_bind_ok h
  obtain ⟨output, ready, hresolves, hwrites⟩ := exists_of_bind_ok h
  exact ⟨⟨inputs, detected, choices, output, started, found, asking, asked, stored, told, ready,
    hreads, hstarts, hfinds, ⟨_, hshows⟩, hasks, hstores, ⟨_, htells⟩, hresolves, hwrites⟩⟩

/-- Whatever is chosen is chosen for one of the differences that are asked about, if it was not in
the table before. -/
theorem exists_asked {es : List LedgerEntry} {r choices : Resolutions} {s t : Session}
    (h : askChoices es r s = .ok choices t) :
    ∀ pair ∈ choices.choices, pair ∈ r.choices ∨ ∃ e ∈ es, e.id = pair.1 := by
  induction es generalizing r s with
  | nil =>
    cases h
    exact fun pair hpair => .inl hpair
  | cons e es ih =>
    rw [askChoices] at h
    obtain ⟨_, shown, -, h⟩ := exists_of_bind_ok h
    obtain ⟨choice, answered, -, h⟩ := exists_of_bind_ok h
    intro pair hpair
    rcases ih h pair hpair with hinsert | ⟨e', he', hid⟩
    · rcases Resolutions.mem_insertPair hinsert with rfl | hearlier
      · exact .inr ⟨e, List.mem_cons_self, rfl⟩
      · exact .inl hearlier
    · exact .inr ⟨e', List.mem_cons_of_mem e he', hid⟩

namespace ReviewRun

variable (run : ReviewRun env settings first second saved sinks s s')

/-- The choices have ids of the ledger, so they are as small. -/
theorem narrow_choices (h : ∀ e ∈ run.detected.ledger.entries, e.id < Codec.bound32) :
    run.choices.Narrow := by
  intro pair hpair
  rcases exists_asked run.asks pair hpair with hempty | ⟨e, he, hid⟩
  · exact absurd hempty List.not_mem_nil
  · exact hid ▸ h e (List.mem_filter.1 he).1

/-- The file holds the choices once they are saved. -/
theorem read_stored : run.stored.files.read saved = .ok run.choices.toJson := by
  have hstores := run.stores
  rw [Step.onFiles, FileAction.write, FileAction.ofOperation] at hstores
  cases hwrite : run.asked.files.write saved run.choices.toJson with
  | error e => simp [hwrite] at hstores
  | ok files =>
    simp only [hwrite] at hstores
    rw [← (EStateM.Result.ok.inj hstores).2]
    exact FileSystem.read_of_write hwrite

end ReviewRun

end

/-- **Reviews can be replayed.** A table of choices with ids of 32 bits is read back from what is
saved of it. So if a review saved its choices, and the differences it found have such ids, then a
later pass over the same inputs with what was saved gives the very same output: the merged text, the
ledger and the decisions. A later merge with the saved file writes this output, also if it is run at
another time, writes elsewhere, and finds the file under another path. -/
theorem replay_review :
    (∀ r : Resolutions, r.Narrow → Resolutions.ofJson r.toJson = .ok r)
      ∧ ∀ (env : Environment) (settings : Settings) (first second saved : Path) (sinks : Sinks)
        (s s' : Session), review env settings first second (some saved) sinks s = .ok () s' →
        ∃ run : ReviewRun env settings first second saved sinks s s',
          run.stored.files.read saved = .ok run.choices.toJson
            ∧ ((∀ e ∈ run.detected.ledger.entries, e.id < Codec.bound32) →
              (configFor settings first sinks).resolveJson
                  (env.source (configFor settings first sinks).language run.inputs.first)
                  (env.source (configFor settings first sinks).language run.inputs.second)
                  run.choices.toJson = .ok run.output
              ∧ ∀ (env' : Environment) (payload : Path) (sinks' : Sinks) (later : Session),
                env'.parse = env.parse → sinks'.language = sinks.language →
                Inputs.read later.files first second = .ok run.inputs →
                later.files.read payload = .ok run.choices.toJson →
                ∃ events, merge env' settings first second (some payload) sinks' later
                  = (do
                      Step.recordAll events
                      emit env' settings first second run.output sinks') later) := by
  refine ⟨fun r hr => Resolutions.ofJson_toJson hr,
    fun env settings first second saved sinks s s' h => ?_⟩
  obtain ⟨run⟩ := exists_reviewRun h
  -- First for the pass by itself, and then for a merge that reads the file.
  refine ⟨run, run.read_stored, fun hids => ?_⟩
  have hnarrow := run.narrow_choices hids
  obtain ⟨_, hpass⟩ := exists_of_ofFinding run.resolves
  constructor
  · obtain ⟨given, hrun, houtput⟩ := exists_run_of_findPass hpass
    rw [MergeConfig.resolveJson_toJson _ _ _ hnarrow, MergeConfig.resolve, hrun, Except.map,
      houtput]
  · intro env' payload sinks' later henv hsinks hinputs hsaved
    obtain ⟨events, hfound⟩ := findMerged_again hnarrow hpass henv hsinks hinputs hsaved
    have hget : (get : Step Session) later = .ok later later := rfl
    exact ⟨events, by rw [merge, bind_ok hget, ofFinding_of_ok hfound]⟩

/-- The tree of a file with one class and one method in it. -/
def sampleTree : ParseTree :=
  sampleNode "compilation_unit" 0 21 none
    [sampleNode "class_declaration" 0 21 none
      [sampleNode "identifier" 6 7 (some "name") [],
       sampleNode "declaration_list" 7 21 (some "body")
        [sampleBrace "\x7b" 7,
         sampleNode "method_declaration" 8 20 none
          [sampleNode "identifier" 13 14 (some "name") [],
           sampleNode "parameter_list" 14 16 (some "parameters") [],
           sampleNode "block" 16 20 (some "body") []],
         sampleBrace "\x7d" 20]]]

/-- A user who goes down the list once and picks. -/
def sampleEnvironment : Environment :=
  ⟨fun _ _ => sampleTree, some ['j', ' '], none, "1_abcdef0",
    .ofUnixTime 0 0⟩

/-- Two texts that differ in the body of their method. -/
def sampleInputs : Inputs :=
  ⟨"class T\x7bvoid F()\x7b1;\x7d\x7d", "class T\x7bvoid F()\x7b2;\x7d\x7d"⟩

/-- Files with the two texts, and other files. -/
def sampleFiles (others : List (Location × Node)) : FileSystem :=
  ⟨[], (["a.cs"], .file sampleInputs.first) :: (["b.cs"], .file sampleInputs.second) :: others⟩

/-- The user keeps the first of the two bodies. -/
theorem exists_sample_review :
    ∃ s', review sampleEnvironment .default ⟨"a.cs"⟩ ⟨"b.cs"⟩ (some ⟨"r.json"⟩) ⟨none, none, none⟩
        (.start (sampleFiles []) sampleEnvironment.keys) = .ok () s'
      ∧ s'.output = sampleInputs.first := by
  have hcheck : EStateM.run'
      (review sampleEnvironment .default ⟨"a.cs"⟩ ⟨"b.cs"⟩ (some ⟨"r.json"⟩) ⟨none, none, none⟩
        >>= fun _ => Session.output <$> get)
      (.start (sampleFiles []) sampleEnvironment.keys) = some sampleInputs.first := by
    decide +kernel
  delta EStateM.run' EStateM.run at hcheck
  cases hrun : review sampleEnvironment .default ⟨"a.cs"⟩ ⟨"b.cs"⟩ (some ⟨"r.json"⟩)
      ⟨none, none, none⟩ (.start (sampleFiles []) sampleEnvironment.keys) with
  | ok _ s' =>
    rw [bind_ok hrun] at hcheck
    exact ⟨s', rfl, Option.some.inj hcheck⟩
  | error e s' =>
    simp [bind, EStateM.bind, hrun] at hcheck

/-- The ids of the differences are small. -/
theorem sample_ids_narrow {output : MergeOutput} {before after : List Event}
    (h : findPass sampleEnvironment (configFor .default ⟨"a.cs"⟩ ⟨none, none, none⟩) sampleInputs
      none before = .ok output after) :
    ∀ e ∈ output.ledger.entries, e.id < Codec.bound32 := by
  have hcheck : ((configFor .default ⟨"a.cs"⟩ ⟨none, none, none⟩).run
      (sampleEnvironment.source .csharp sampleInputs.first)
      (sampleEnvironment.source .csharp sampleInputs.second) none).toOption.all
        (fun given => given.output.ledger.entries.all (decide <| ·.id < Codec.bound32)) = true := by
    decide +kernel
  obtain ⟨given, hrun, rfl⟩ := exists_run_of_findPass h
  have hrun : (configFor .default ⟨"a.cs"⟩ ⟨none, none, none⟩).run
    (sampleEnvironment.source .csharp sampleInputs.first)
    (sampleEnvironment.source .csharp sampleInputs.second) none = .ok given := hrun
  rw [hrun] at hcheck
  exact fun e he => of_decide_eq_true (List.all_eq_true.1 hcheck e he)

/-- A later merge without a user keeps the first of the two bodies, too. -/
theorem replay_review_sample :
    let env := sampleEnvironment
    let sinks : Sinks := ⟨none, none, none⟩
    let start := Session.start (sampleFiles []) env.keys
    let several : Resolutions := ⟨[(1, .keepFirst), (4294967295, .keepSecond)], by decide⟩
    Resolutions.ofJson several.toJson = .ok several
      ∧ ∃ s', review env .default ⟨"a.cs"⟩ ⟨"b.cs"⟩ (some ⟨"r.json"⟩) sinks start = .ok () s'
        ∧ s'.output = sampleInputs.first
        ∧ ∃ run : ReviewRun env .default ⟨"a.cs"⟩ ⟨"b.cs"⟩ ⟨"r.json"⟩ sinks start s',
          let later := Session.start (sampleFiles [(["s.json"], .file run.choices.toJson)]) none
          ∃ events, merge env .default ⟨"a.cs"⟩ ⟨"b.cs"⟩ (some ⟨"s.json"⟩) sinks later
            = (do
                Step.recordAll events
                emit env .default ⟨"a.cs"⟩ ⟨"b.cs"⟩ run.output sinks) later := by
  intro env sinks start several
  obtain ⟨hround, hreplay⟩ := replay_review
  obtain ⟨s', hreview, houtput⟩ := exists_sample_review
  obtain ⟨run, -, hagain⟩ := hreplay _ _ _ _ _ _ _ _ hreview
  have hsample : Inputs.read start.files ⟨"a.cs"⟩ ⟨"b.cs"⟩ = .ok sampleInputs := by rfl
  have hinputs : run.inputs = sampleInputs := Except.ok.inj (run.reads.symm.trans hsample)
  have hids : ∀ e ∈ run.detected.ledger.entries, e.id < Codec.bound32 := by
    obtain ⟨_, hpass⟩ := exists_of_ofFinding run.finds
    exact sample_ids_narrow (hinputs ▸ hpass)
  refine ⟨hround several (by decide), s', hreview, houtput, run, ?_⟩
  refine (hagain hids).2 env ⟨"s.json"⟩ sinks _ rfl rfl ?_ ?_
  · rw [hinputs]
    rfl
  · rfl

end CommandLine

end ModuleMerge
