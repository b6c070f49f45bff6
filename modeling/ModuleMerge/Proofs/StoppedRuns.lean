import ModuleMerge.Proofs.Channels
import ModuleMerge.Proofs.FirstFault

/-!
# Runs that are stopped

Much can be wrong with what a merge is given: files that are not there, resolutions that are none,
sources that cannot be parsed. Any of it stops the merge, whatever else is wrong, and before
anything is written. It is not enough to say what happens for one fault, since several can be there
at once; so the faults are described one by one, each without regard to the others, and the merge is
held against all of them.

A fault is a fact about the files, the settings and the parser. It does not mention the run, so the
run can not be right by definition. Two faults at one stage are possible, as when neither input can
be read. The failure that is reported is then one of them, and of the stages it is the first that
has any.

The proof goes through the stages in order. At each there are two cases: what is needed is found,
and no fault of this stage is there, or there is a fault and the finding stops with its failure. As
long as the first case holds, it is known that nothing is wrong before the next stage. The lemmas
for the stages have this form, so the last theorem only chains them.

After that it remains to be seen that a run that stops in this way has written nothing. All that
comes before is the log, which has no file here, and what it prints.

* `Stage` lists what a merge needs, in order, and `MergeFault` says what can be wrong at each stage.
* `ClearBefore` says that nothing is wrong at the stages before one.
* `found_or_stopped` says that a merge finds all it needs exactly if there is no fault, and else
  stops at the first stage with one.
* `run_stopped` is the main result.
-/

set_option autoImplicit false

namespace ModuleMerge

/-- What belongs to a side. -/
def Side.pick {α : Type} (first second : α) : Side → α
  | .first => first
  | .second => second

namespace CommandLine

open Acting

/-! ## Faults

Each constructor says what is wrong by asking the functions that would be asked in a run, one at a
time: can this file be read, does this text hold choices, does that one hold a module. -/

/-- What a merge needs before it writes anything, in the order in which it is looked for. -/
inductive Stage where
  /-- The texts of the inputs. -/
  | inputs
  /-- The text of the resolutions. -/
  | resolutions
  /-- The choices that the text means. -/
  | choices
  /-- The module that an input holds. -/
  | module (side : Side)
  deriving DecidableEq, Repr

/-- The number of stages before one. -/
def Stage.rank : Stage → Nat
  | inputs => 0
  | resolutions => 1
  | choices => 2
  | module .first => 3
  | module .second => 4

/-- No two stages have one number, so the first with a fault is a single one. -/
theorem Stage.rank_injective {stage stage' : Stage} (h : stage.rank = stage'.rank) :
    stage = stage' := by
  obtain _ | _ | _ | _ | _ := stage <;> obtain _ | _ | _ | _ | _ := stage' <;> cases h <;> rfl

/-- The module that a text holds. -/
def Environment.module (env : Environment) (config : MergeConfig) (text : String) :
    Except SyntaxFault SourceModule :=
  (env.source config.language text).read config.language config.allowSyntaxErrors

/-- One thing that is wrong with what a merge is given, whatever else is: the stage that it belongs
to, and the failure that tells of it. -/
inductive MergeFault (env : Environment) (settings : Settings) (fs : FileSystem)
    (first second : Path) (resolutions : Option Path) (sinks : Sinks) : Stage → Failure → Prop
  /-- An input cannot be read. -/
  | input (side : Side) {e : FileError} (hread : fs.read (side.pick first second) = .error e) :
    MergeFault env settings fs first second resolutions sinks .inputs
      (.during .readingInput (side.pick first second) (.file e))
  /-- There is to be a file with resolutions, and it cannot be read. -/
  | resolutions {p : Path} {e : FileError} (hgiven : resolutions = some p)
    (hread : fs.read p = .error e) :
    MergeFault env settings fs first second resolutions sinks .resolutions
      (.during .readingInput p (.file e))
  /-- The file with the resolutions does not hold any. -/
  | choices {p : Path} {payload : String} {e : Json.ReadError} (hgiven : resolutions = some p)
    (hread : fs.read p = .ok payload) (hpayload : Resolutions.readPayload payload = .error e) :
    MergeFault env settings fs first second resolutions sinks .choices
      (.during .loadingResolutions p (.merge (.badResolutions e)))
  /-- An input does not hold a module. -/
  | module (side : Side) {text : String} {fault : SyntaxFault}
    (hread : fs.read (side.pick first second) = .ok text)
    (hparse : env.module (configFor settings first sinks) text = .error fault) :
    MergeFault env settings fs first second resolutions sinks (.module side)
      (.bare (.merge (.badSource side fault)))

/-- Nothing is wrong at the stages before one. -/
def ClearBefore (env : Environment) (settings : Settings) (fs : FileSystem)
    (first second : Path) (resolutions : Option Path) (sinks : Sinks) (stage : Stage) : Prop :=
  ∀ other f, MergeFault env settings fs first second resolutions sinks other f →
    stage.rank ≤ other.rank

section

variable {env : Environment} {settings : Settings} {fs : FileSystem} {first second : Path}
  {resolutions : Option Path} {sinks : Sinks} {stage : Stage}

/-- No stage comes before the inputs. -/
theorem clearBefore_inputs :
    ClearBefore env settings fs first second resolutions sinks .inputs :=
  fun other _ _ => Nat.zero_le other.rank

/-- If nothing is wrong at a stage either, nothing is wrong before the next one. -/
theorem ClearBefore.next (later : Stage)
    (h : ClearBefore env settings fs first second resolutions sinks stage)
    (hnone : ∀ f, ¬ MergeFault env settings fs first second resolutions sinks stage f)
    (hlater : later.rank = stage.rank + 1) :
    ClearBefore env settings fs first second resolutions sinks later := by
  intro other f hfault
  rcases Nat.eq_or_lt_of_le (h other f hfault) with heq | hlt
  · obtain rfl := Stage.rank_injective heq
    exact absurd hfault (hnone f)
  · omega

/-- If nothing is wrong at the last stage either, nothing is wrong. -/
theorem ClearBefore.clear
    (h : ClearBefore env settings fs first second resolutions sinks (.module .second))
    (hnone : ∀ f, ¬ MergeFault env settings fs first second resolutions sinks (.module .second) f)
    (f : Failure) : ¬ MergeFault env settings fs first second resolutions sinks stage f := by
  intro hfault
  have hlast : stage = .module .second := by
    refine Stage.rank_injective (Nat.le_antisymm ?_ (h stage f hfault))
    obtain _ | _ | _ | _ | _ := stage <;> decide
  exact hnone f (hlast ▸ hfault)

end

/-- What a user is shown of an error of a pass. -/
theorem report_merge (e : MergeError) :
    (Failure.bare (.merge e)).report = "Error: " ++ e.message ++ "\n" := by
  have hmessages : (Failure.bare (.merge e)).messages = [e.message] := rfl
  rw [Failure.report, hmessages]
  simp

/-- What is said of a source that cannot be parsed begins with its side. -/
theorem message_badSource (side : Side) (fault : SyntaxFault) :
    ∃ rest, (MergeError.badSource side fault).message
      = side.name ++ " input could not be parsed at line " ++ rest := by
  have hassoc : ∀ a b c d e f g : String,
      a ++ b ++ c ++ d ++ e ++ f ++ g = a ++ b ++ (c ++ d ++ e ++ f ++ g) := by
    simp only [String.append_assoc, implies_true]
  exact ⟨_, hassoc ..⟩

/-! ## Finding out

What is found out is an action that may fail and that collects events to be logged. If it fails, the
events that it has collected by then are logged all the same. -/

/-- An event that is logged before a pass: about the resolutions, or the language. -/
def isPreparation : Event → Bool
  | .unknownChoice .. | .resolutionsLoaded .. | .languageSelected .. => true
  | _ => false

/-- What is found out stops at the first fault, with nothing logged but preparations. -/
structure Stops (env : Environment) (settings : Settings) (fs : FileSystem)
    (first second : Path) (resolutions : Option Path) (sinks : Sinks) {α : Type}
    (finding : Finding α) (before : List Event) (stage : Stage) (f : Failure)
    (events : List Event) : Prop where
  fails : finding before = .error f events
  fault : MergeFault env settings fs first second resolutions sinks stage f
  clear : ClearBefore env settings fs first second resolutions sinks stage
  prepares : ∀ e ∈ events, isPreparation e = true

section

variable {env : Environment} {settings : Settings} {fs : FileSystem} {first second : Path}
  {resolutions : Option Path} {sinks : Sinks} {before between : List Event}

/-- What is stopped at its first step is stopped. -/
theorem Stops.bind {α β : Type} {finding : Finding α} {rest : α → Finding β} {stage : Stage}
    {f : Failure} {events : List Event}
    (h : Stops env settings fs first second resolutions sinks finding before stage f events) :
    Stops env settings fs first second resolutions sinks (finding >>= rest) before stage f events :=
  { h with fails := bind_error h.fails }

/-- What is stopped at a later step is stopped. -/
theorem Stops.after {α β : Type} {finding : Finding α} {rest : α → Finding β} {a : α}
    {stage : Stage} {f : Failure} {events : List Event}
    (hfirst : finding before = .ok a between)
    (h : Stops env settings fs first second resolutions sinks (rest a) between stage f events) :
    Stops env settings fs first second resolutions sinks (finding >>= rest) before stage f events :=
  { h with fails := (bind_ok hfirst).trans h.fails }

theorem readFor_of_error {task : FileTask} {p : Path} {e : FileError} (h : fs.read p = .error e) :
    fs.readFor task p = .error (.during task p (.file e)) := by
  rw [FileSystem.readFor, h]
  rfl

/-- The inputs are read, or one of them cannot be. -/
theorem inputs_or_stopped (env : Environment) (settings : Settings) (fs : FileSystem)
    (first second : Path) (resolutions : Option Path) (sinks : Sinks) :
    (∃ inputs, Inputs.read fs first second = .ok inputs
        ∧ ∀ side : Side,
          fs.read (side.pick first second) = .ok (side.pick inputs.first inputs.second))
      ∨ ∃ f, Stops env settings fs first second resolutions sinks
        (.ofExcept (Inputs.read fs first second)) [] .inputs f [] := by
  cases hfirst : fs.read first with
  | error e =>
    -- The second file is not even looked for.
    refine .inr ⟨_, ?_, .input .first hfirst, clearBefore_inputs, nofun⟩
    rw [Inputs.read, readFor_of_error hfirst]
    rfl
  | ok firstText =>
    cases hsecond : fs.read second with
    | error e =>
      refine .inr ⟨_, ?_, .input .second hsecond, clearBefore_inputs, nofun⟩
      rw [Inputs.read, FileSystem.readFor_of_read hfirst, readFor_of_error hsecond]
      rfl
    | ok secondText =>
      refine .inl ⟨⟨firstText, secondText⟩, ?_, fun side => ?_⟩
      · rw [Inputs.read, FileSystem.readFor_of_read hfirst, FileSystem.readFor_of_read hsecond]
        rfl
      · cases side with
        | first => exact hfirst
        | second => exact hsecond

/-- The resolutions, if there are to be any. -/
def findChoices (fs : FileSystem) (resolutions : Option Path) : Finding (Option Resolutions) :=
  match resolutions with
  | none => pure none
  | some p => some <$> findResolutions fs p

/-- What a merge needs is found in four steps, of which one only tells the language. -/
theorem findMerged_eq :
    findMerged env settings fs first second resolutions sinks = (do
      let inputs ← .ofExcept (Inputs.read fs first second)
      let choices ← findChoices fs resolutions
      .note [.languageSelected (configFor settings first sinks).language]
      findPass env (configFor settings first sinks) inputs choices) := by
  cases resolutions <;> rfl

/-- What a file with resolutions gives. -/
theorem findResolutions_eq (fs : FileSystem) (p : Path) (before : List Event) :
    findResolutions fs p before
      = match fs.read p with
        | .error e => .error (.during .readingInput p (.file e)) before
        | .ok payload =>
          match Resolutions.readPayload payload with
          | .error e => .error (.during .loadingResolutions p (.merge (.badResolutions e))) before
          | .ok records =>
            let choices := Resolutions.ofRecords records
            let events := unknownChoices records ++ [.resolutionsLoaded choices.size]
            .ok choices (before ++ events) := by
  cases hread : fs.read p with
  | error e =>
    rw [findResolutions, readFor_of_error hread]
    rfl
  | ok payload =>
    have hfound : Finding.ofExcept (fs.readFor .readingInput p) before = .ok payload before := by
      rw [FileSystem.readFor_of_read hread]
      rfl
    rw [findResolutions, bind_ok hfound]
    dsimp only
    cases Resolutions.readPayload payload with
    | error e => rfl
    | ok records => rfl

/-- All that is told of resolutions is preparation. -/
theorem isPreparation_of_mem_payload {records : List ResolutionRecord} {count : Nat} {e : Event}
    (he : e ∈ unknownChoices records ++ [.resolutionsLoaded count]) : isPreparation e = true := by
  rcases List.mem_append.1 he with hunknown | hloaded
  · obtain ⟨record, -, rfl⟩ := List.mem_map.1 hunknown
    rfl
  · obtain rfl := List.mem_singleton.1 hloaded
    rfl

/-- The resolutions are read, or they cannot be. -/
theorem choices_or_stopped
    (hclear : ClearBefore env settings fs first second resolutions sinks .resolutions) :
    (∃ choices events, findChoices fs resolutions [] = .ok choices events
        ∧ (∀ e ∈ events, isPreparation e = true)
        ∧ ClearBefore env settings fs first second resolutions sinks (.module .first))
      ∨ ∃ stage f, Stops env settings fs first second resolutions sinks
        (findChoices fs resolutions) [] stage f [] := by
  match resolutions with
  | none =>
    -- Without resolutions neither of the two stages can have a fault.
    have hread := hclear.next .choices (fun _ hfault => nomatch hfault) rfl
    exact .inl ⟨none, [], rfl, nofun,
      hread.next (.module .first) (fun _ hfault => nomatch hfault) rfl⟩
  | some p =>
    have hfound := findResolutions_eq fs p []
    rw [findChoices, map_eq_pure_bind]
    cases hread : fs.read p with
    | error e =>
      rw [hread] at hfound
      exact .inr ⟨_, _, bind_error hfound, .resolutions rfl hread, hclear, nofun⟩
    | ok payload =>
      have hchoices := hclear.next .choices (fun _ hfault => by
        cases hfault with
        | resolutions hgiven hunread =>
          obtain rfl := Option.some.inj hgiven
          rw [hread] at hunread
          contradiction) rfl
      rw [hread] at hfound
      cases hpayload : Resolutions.readPayload payload with
      | error e =>
        simp only [hpayload] at hfound
        exact .inr ⟨_, _, bind_error hfound, .choices rfl hread hpayload, hchoices, nofun⟩
      | ok records =>
        simp only [hpayload] at hfound
        refine .inl ⟨_, _, bind_ok hfound, fun e => isPreparation_of_mem_payload,
          hchoices.next (.module .first) (fun _ hfault => ?_) rfl⟩
        cases hfault with
        | choices hgiven hread' hmalformed =>
          obtain rfl := Option.some.inj hgiven
          obtain rfl := Except.ok.inj (hread.symm.trans hread')
          rw [hpayload] at hmalformed
          contradiction

/-- What a pass over two texts finds. -/
theorem findPass_eq (config : MergeConfig) (inputs : Inputs) (choices : Option Resolutions) :
    findPass env config inputs choices before
      = match env.module config inputs.first, env.module config inputs.second with
        | .error fault, _ => .error (.bare (.merge (.badSource .first fault))) before
        | .ok _, .error fault => .error (.bare (.merge (.badSource .second fault))) before
        | .ok m, .ok m' =>
          .ok (config.runModules choices m m').output
            (before ++ (config.runModules choices m m').events) := by
  rw [findPass, ofReport_eq, MergeConfig.run, MergeConfig.readSide, MergeConfig.readSide,
    Environment.module, Environment.module, Environment.source, Environment.source]
  cases (⟨inputs.first, env.parse config.language inputs.first⟩ : Source).read config.language
      config.allowSyntaxErrors with
  | error fault => exact congrArg (EStateM.Result.error _) (List.append_nil before)
  | ok m =>
    cases (⟨inputs.second, env.parse config.language inputs.second⟩ : Source).read config.language
        config.allowSyntaxErrors with
    | error fault => exact congrArg (EStateM.Result.error _) (List.append_nil before)
    | ok m' => rfl

/-- An input that holds a module is without fault. -/
theorem not_mergeFault_module {side : Side} {text : String} {m : SourceModule}
    (hread : fs.read (side.pick first second) = .ok text)
    (hmodule : env.module (configFor settings first sinks) text = .ok m) (f : Failure) :
    ¬ MergeFault env settings fs first second resolutions sinks (.module side) f := by
  intro hfault
  cases hfault with
  | module _ hread' hparse =>
    obtain rfl := Except.ok.inj (hread.symm.trans hread')
    rw [hmodule] at hparse
    contradiction

/-- The pass goes through, or an input does not hold a module. -/
theorem pass_or_stopped {inputs : Inputs} (choices : Option Resolutions)
    (hreads : ∀ side : Side,
      fs.read (side.pick first second) = .ok (side.pick inputs.first inputs.second))
    (hclear : ClearBefore env settings fs first second resolutions sinks (.module .first))
    (hbefore : ∀ e ∈ before, isPreparation e = true) :
    (∃ output events,
        findPass env (configFor settings first sinks) inputs choices before = .ok output events
        ∧ ∀ stage f, ¬ MergeFault env settings fs first second resolutions sinks stage f)
      ∨ ∃ stage f, Stops env settings fs first second resolutions sinks
        (findPass env (configFor settings first sinks) inputs choices) before stage f before := by
  rw [findPass_eq]
  cases hfirst : env.module (configFor settings first sinks) inputs.first with
  | error fault =>
    exact .inr ⟨_, _, by rw [findPass_eq, hfirst], .module .first (hreads .first) hfirst, hclear,
      hbefore⟩
  | ok m =>
    -- The first input is no longer a cause, so the second is the next to be looked at.
    have hclear' := hclear.next (.module .second)
      (not_mergeFault_module (hreads .first) hfirst) rfl
    cases hsecond : env.module (configFor settings first sinks) inputs.second with
    | error fault =>
      exact .inr ⟨_, _, by rw [findPass_eq, hfirst, hsecond],
        .module .second (hreads .second) hsecond, hclear', hbefore⟩
    | ok m' =>
      exact .inl ⟨_, _, rfl,
        fun _ => hclear'.clear (not_mergeFault_module (hreads .second) hsecond)⟩

/-- **A merge finds all it needs, or it stops at the first fault.** Stage by stage, with the rest of
the finding left as it is until it is reached. -/
theorem found_or_stopped (env : Environment) (settings : Settings) (fs : FileSystem)
    (first second : Path) (resolutions : Option Path) (sinks : Sinks) :
    (∃ output events,
        findMerged env settings fs first second resolutions sinks [] = .ok output events
        ∧ ∀ stage f, ¬ MergeFault env settings fs first second resolutions sinks stage f)
      ∨ ∃ stage f events, Stops env settings fs first second resolutions sinks
        (findMerged env settings fs first second resolutions sinks) [] stage f events := by
  rw [findMerged_eq]
  obtain ⟨inputs, hinputs, hreads⟩ | ⟨f, hstops⟩ :=
    inputs_or_stopped env settings fs first second resolutions sinks
  swap
  · exact .inr ⟨_, f, _, hstops.bind⟩
  have hread : Finding.ofExcept (Inputs.read fs first second) [] = .ok inputs [] := by
    rw [hinputs]
    rfl
  -- Once a stage is passed it has no fault, and the search goes on from there.
  have hclear : ClearBefore env settings fs first second resolutions sinks .resolutions :=
    clearBefore_inputs.next .resolutions (fun f hfault => by
      cases hfault with
      | input side hunread =>
        rw [hreads side] at hunread
        contradiction) rfl
  obtain ⟨choices, loaded, hchoices, hprepares, hclear⟩ | ⟨_, f, hstops⟩ :=
    choices_or_stopped hclear
  swap
  · exact .inr ⟨_, f, _, Stops.after hread hstops.bind⟩
  have hprepares' : ∀ e ∈ loaded ++ [.languageSelected (configFor settings first sinks).language],
      isPreparation e = true :=
    List.forall_mem_append.2 ⟨hprepares, List.forall_mem_singleton.2 rfl⟩
  obtain ⟨output, events, hpass, hnone⟩ | ⟨_, f, hstops⟩ :=
    pass_or_stopped choices hreads hclear hprepares'
  · exact .inl ⟨output, events, (bind_ok hread).trans ((bind_ok hchoices).trans hpass), hnone⟩
  · exact .inr ⟨_, f, _, Stops.after hread (Stops.after hchoices (Stops.after rfl hstops))⟩

end

/-! ## Runs

Where the log has no file, every step of logging is a text that is printed apart from the output, so
the whole session can be computed. -/

/-- The session after a text was printed apart from the output. -/
def Session.told (s : Session) (text : String) : Session :=
  { s with errors := s.errors ++ text }

section

variable {s : Session} {e : Event} {events : List Event}

/-- To print nothing leaves the session as it is. -/
theorem Session.told_empty : s.told "" = s := by
  rw [told, String.append_empty]

theorem Session.told_told (text more : String) :
    (s.told text).told more = s.told (text ++ more) := by
  rw [told, told, told, String.append_assoc]

/-- Without a log file, starting the log changes no files. -/
theorem openLog_of_none {filter : Option String} {settings : LoggingSettings}
    (h : settings.directory = none) :
    Step.openLog filter settings s = .ok ()
      (Session.told { s with log := ⟨.ofText (rulesFor filter settings), none⟩ }
        (String.join (EventFilter.warnings (rulesFor filter settings)))) := by
  rw [Step.openLog, h]
  rfl

/-- Without a log file, a logged event is only printed. -/
theorem record_of_none (h : s.log.file = none) :
    Step.record e s = .ok () (s.told (loggedLines s.log.filter [e])) := by
  have hget : (get : Step Session) s = .ok s s := rfl
  rw [Step.record, bind_ok hget, loggedLines]
  cases hpasses : s.log.filter.passes e with
  | false =>
    rw [List.filter_cons_of_neg (by simp [hpasses]), List.filter_nil]
    exact congrArg (EStateM.Result.ok ()) Session.told_empty.symm
  | true =>
    have hprint : Step.printError e.line s = .ok () (s.told e.line) := rfl
    have hline : Step.logLine e.line (s.told e.line) = .ok () (s.told e.line) := by
      have hget : (get : Step Session) (s.told e.line) = .ok (s.told e.line) (s.told e.line) := rfl
      rw [Step.logLine, bind_ok hget, show (s.told e.line).log.file = none from h]
      rfl
    rw [List.filter_cons_of_pos hpasses, List.filter_nil, if_pos rfl, bind_ok hprint, hline]
    simp

/-- Several events are printed one after the other. -/
theorem recordAll_of_none (h : s.log.file = none) :
    Step.recordAll events s = .ok () (s.told (loggedLines s.log.filter events)) := by
  induction events generalizing s with
  | nil => exact congrArg (EStateM.Result.ok ()) Session.told_empty.symm
  | cons e events ih =>
    have hlater : Step.recordAll events (s.told (loggedLines s.log.filter [e])) = .ok () _ := ih h
    rw [Step.recordAll, bind_ok (record_of_none h), hlater, Session.told_told,
      loggedLines_cons s.log.filter e events]
    rfl

/-- A finding that fails is logged as far as it went. -/
theorem ofFinding_of_error {α : Type} {finding : Finding α} {f : Failure}
    (h : finding [] = .error f events) (hfile : s.log.file = none) :
    Step.ofFinding finding s = .error f (s.told (loggedLines s.log.filter events)) := by
  rw [Step.ofFinding, h]
  exact bind_ok (recordAll_of_none hfile)

/-- Without a log file, a merge that is stopped only prints what was logged. -/
theorem merge_of_stops {env : Environment} {settings : Settings} {first second : Path}
    {resolutions : Option Path} {sinks : Sinks} {stage : Stage} {f : Failure}
    (h : Stops env settings s.files first second resolutions sinks
      (findMerged env settings s.files first second resolutions sinks) [] stage f events)
    (hfile : s.log.file = none) :
    merge env settings first second resolutions sinks s
      = .error f (s.told (loggedLines s.log.filter events)) := by
  have hget : (get : Step Session) s = .ok s s := rfl
  rw [merge, bind_ok hget]
  exact bind_error (ofFinding_of_error h.fails hfile)

end

/-- **A merge that lacks something writes nothing.** Let one or more things be wrong with what a
merge is given, while its arguments are understood, its settings are read and the log has no file.
Then the run ends with 1, prints no output and leaves all files as they are, wherever the results
were to go. It reports one failure, which belongs to the first stage at which anything is wrong, and
nothing else is printed but what the log is told before a pass. If a source cannot be parsed, it is
said which one. -/
theorem run_stopped (env : Environment) (files : FileSystem) (arguments : List String)
    (settingsFile : Option Path) (first second : Path) (resolutions : Option Path) (sinks : Sinks)
    (settings : Settings)
    (harguments : Request.ofArguments? arguments
      = some (.run settingsFile (.merge first second resolutions sinks)))
    (hsettings : Settings.loadOrDefault files settingsFile = .ok settings)
    (hdirectory : settings.logging.directory = none)
    (hfault : ∃ stage f,
      MergeFault env settings files first second resolutions sinks stage f) :
    let o := run env files arguments
    let rules := rulesFor env.filter settings.logging
    o.exitCode = 1 ∧ o.output = "" ∧ o.files = files
      ∧ ∃ stage f events,
        MergeFault env settings files first second resolutions sinks stage f
          ∧ (∀ other g, MergeFault env settings files first second resolutions sinks other g →
            stage.rank ≤ other.rank)
          ∧ o.failure = some f
          ∧ o.allErrors = String.join (EventFilter.warnings rules)
            ++ loggedLines (.ofText rules) events ++ f.report
          ∧ (∀ e ∈ events, isPreparation e = true)
          ∧ ∀ side, stage = .module side → ∃ rest,
            f.report = "Error: " ++ (side.name ++ " input could not be parsed at line " ++ rest)
              ++ "\n" := by
  intro o rules
  -- Since there is a fault, the merge has not found all it needs.
  obtain ⟨stage, f, events, hstops⟩ : ∃ stage f events,
      Stops env settings files first second resolutions sinks
        (findMerged env settings files first second resolutions sinks) [] stage f events := by
    refine (found_or_stopped ..).resolve_left ?_
    rintro ⟨_, _, -, hnone⟩
    obtain ⟨stage, f, hsome⟩ := hfault
    exact hnone stage f hsome
  have hlook : Step.look (Settings.loadOrDefault · settingsFile) (.start files env.keys)
      = .ok settings (.start files env.keys) := by
    rw [Step.look]
    simp only [Session.start, hsettings]
  -- Settings, log and merge, with what each of them prints.
  have hstart : start env settingsFile (.merge first second resolutions sinks)
      (.start files env.keys)
      = .error f (Session.told ⟨files, env.keys, ⟨.ofText rules, none⟩, "", ""⟩
        (String.join (EventFilter.warnings rules) ++ loggedLines (.ofText rules) events)) := by
    rw [← Session.told_told]
    exact (bind_ok hlook).trans ((bind_ok (openLog_of_none hdirectory)).trans
      (merge_of_stops hstops rfl))
  have hrun : o = ⟨1, "", String.join (EventFilter.warnings rules)
      ++ loggedLines (.ofText rules) events, files, some f⟩ := by
    simp only [o, run, harguments]
    rw [Outcome.ofStep, hstart]
    simp only [Session.told, String.empty_append]
  rw [hrun]
  refine ⟨rfl, rfl, rfl, stage, f, events, hstops.fault, hstops.clear, rfl, rfl, hstops.prepares,
    fun side hside => ?_⟩
  subst hside
  obtain ⟨_, hreport⟩ : ∃ fault, f = .bare (.merge (.badSource side fault)) := by
    cases hstops.fault with
    | module _ _ _ => exact ⟨_, rfl⟩
  obtain ⟨rest, hmessage⟩ := message_badSource side _
  exact ⟨rest, by rw [hreport, report_merge, hmessage]⟩

/-- A run in which nothing can be parsed. -/
def faultyEnvironment : Environment :=
  { quietEnvironment with parse := fun _ _ => sampleMissing }

/-- The resolutions hold no choices, and neither input can be parsed. The first of these is
reported, and no results are written. -/
theorem run_stopped_sample :
    let arguments := ["merge", "a.cs", "b.cs", "r.json", "--output", "out.cs", "--log", "l.json"]
    let sinks : Sinks := ⟨some ⟨"out.cs"⟩, some ⟨"l.json"⟩, none⟩
    let files := sampleFiles [(["r.json"], .file "[")]
    let fault := MergeFault faultyEnvironment .default files ⟨"a.cs"⟩ ⟨"b.cs"⟩ (some ⟨"r.json"⟩)
      sinks
    let o := run faultyEnvironment files arguments
    Request.ofArguments? arguments
        = some (.run none (.merge ⟨"a.cs"⟩ ⟨"b.cs"⟩ (some ⟨"r.json"⟩) sinks))
      ∧ (∃ f, fault .choices f) ∧ (∃ f, fault (.module .first) f)
      ∧ (∃ f, fault (.module .second) f)
      ∧ o.exitCode = 1 ∧ o.output = "" ∧ o.files = files
      ∧ ∃ f, o.failure = some f ∧ fault .choices f := by
  intro arguments sinks files fault o
  have harguments : Request.ofArguments? arguments
      = some (.run none (.merge ⟨"a.cs"⟩ ⟨"b.cs"⟩ (some ⟨"r.json"⟩) sinks)) := by
    decide +kernel
  obtain ⟨e, hpayload⟩ : ∃ e, Resolutions.readPayload "[" = .error e := by
    have hnone : (Resolutions.readPayload "[").toOption = none := by decide +kernel
    cases hread : Resolutions.readPayload "[" with
    | ok records =>
      rw [hread] at hnone
      contradiction
    | error e => exact ⟨e, rfl⟩
  have hchoices : fault .choices _ := .choices rfl rfl hpayload
  have hfirst : fault (.module .first) _ := .module .first rfl rfl
  have hsecond : fault (.module .second) _ := .module .second rfl rfl
  obtain ⟨hexit, houtput, hfiles, stage, f, -, hfault, hleast, hfailure, -⟩ :=
    run_stopped faultyEnvironment files arguments none ⟨"a.cs"⟩ ⟨"b.cs"⟩ (some ⟨"r.json"⟩) sinks
      .default harguments rfl rfl ⟨_, _, hchoices⟩
  refine ⟨harguments, ⟨_, hchoices⟩, ⟨_, hfirst⟩, ⟨_, hsecond⟩, hexit, houtput, hfiles, f, hfailure,
    ?_⟩
  have hrank := hleast _ _ hchoices
  cases hfault with
  | input side hread => cases side <;> cases hread
  | resolutions hgiven hread =>
    cases hgiven
    cases hread
  | choices hgiven hread hmalformed => exact .choices hgiven hread hmalformed
  | module side _ _ => cases side <;> exact absurd hrank (by decide)

end CommandLine
end ModuleMerge
