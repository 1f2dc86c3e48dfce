import DoctypeProbe.Proofs.CommandLine.Records
import DoctypeProbe.Proofs.Settings.InForce

/-!
# Before the First Location

A run that has read its arguments prepares to look at the locations: it fills in the settings,
starts logging, and makes a plan. Each of the steps can fail, and the first one that does ends the
run with its message. Up to there nothing has been written, no standard input has been read, and no
location has been looked at: the message of an invalid invocation depends on the arguments and on
the table of the settings file alone.

A plan needs one thing more that no argument has a part in. Where no base directory is set, relative
locations are resolved against the working directory, and it may have been taken away.

## Main results

* `Run.runWith_eq_prepare`: a run prepares, and then looks at the locations.
* `Run.prepare_succeeds_iff`: which preparations succeed.
* `Run.exists_prepare_error`: what the message of an invalid invocation depends on.
-/

namespace DoctypeProbe

namespace Run

open Session

/-! ### The steps -/

/-- The plan of a run whose settings are in force, or what is wrong with it. -/
def planFor (invocation : Invocation) (settings : Settings) (files : FileSystem) :
    Except Bytes Plan :=
  if invocation.locations.isEmpty then .error noLocations
  else
    match settings.detectorOptions with
    | .error e => .error e.message
    | .ok options =>
      match settings.makeLoader files with
      | .error text => .error text
      | .ok loader => .ok { options, loader, numeric := invocation.numeric }

/-- Starts logging and makes the plan of a run whose settings are in force. -/
def prepareWith (invocation : Invocation) (settings : Settings) (s : Session) :
    Except Bytes Plan × Session :=
  match settings.startLogging s.files s.logger with
  | .error e => (.error e.message, s)
  | .ok (notice, files, logger) =>
    (planFor invocation settings files, ({ s with files, logger }).write .console notice)

/-- Prepares a run: its plan, or the message that it ends with, and the session so far. -/
def prepare (invocation : Invocation) (s : Session) : Except Bytes Plan × Session :=
  let (outcome, log, settings) := invocation.settings.fillFromFile s.files
  match outcome with
  | .error e => (.error e.message, s.logAll log)
  | .ok () => prepareWith invocation settings (s.logAll log)

/-- Looks at the locations of a run one after the other, and ends it. -/
def conclude (plan : Plan) (locations : List Bytes) (s : Session) : Status × Session :=
  concludeWith visitAll plan locations s

/-- **A run prepares**, and then looks at the locations unless a step has failed. -/
theorem runWith_eq_prepare {args : List Bytes} {invocation : Invocation} (look : Looking)
    (h : Arguments.parse args = (.ok (), invocation)) (hhelp : invocation.help = false)
    (s : Session) :
    runWith look args s =
      match prepare invocation s with
      | (.error text, s') => refuse s' text
      | (.ok plan, s') => concludeWith look plan invocation.locations s' := by
  rw [runWith, h]
  simp only [hhelp, Bool.false_eq_true, if_false, prepare]
  rcases invocation.settings.fillFromFile s.files with ⟨_ | _, log, settings⟩
  · rfl
  · simp only [prepareWith]
    rcases settings.startLogging (s.logAll log).files (s.logAll log).logger with
      _ | ⟨notice, files, logger⟩
    · rfl
    · simp only [detectAll, planFor]
      split
      · rfl
      · cases settings.detectorOptions with
        | error e => rfl
        | ok options =>
            simp only [Session.write]
            cases (settings.makeLoader files : Except Bytes (Loader Empty)) <;> rfl

/-! ### Which preparations succeed -/

variable {invocation : Invocation} {settings : Settings} {s : Session}

/-- A plan whose documents can be read, with locations, lacks nothing but a base directory. -/
theorem planFor_of_canRead (hread : settings.CanRead) (hlocations : invocation.locations ≠ []) :
    ∃ options, ∀ files, planFor invocation settings files =
      if settings.HasBase files then
        .ok { options, loader := settings.loader files, numeric := invocation.numeric }
      else .error Settings.noWorkingDirectory := by
  obtain ⟨options, hoptions⟩ := Settings.detectorOptions_eq_ok_iff.mpr hread
  refine ⟨options, fun files => ?_⟩
  rw [planFor, List.isEmpty_eq_false_iff.mpr hlocations, hoptions]
  simp only [Bool.false_eq_true, if_false, Settings.makeLoader_eq]
  split_ifs <;> rfl

/-- Otherwise there is no plan, for the same reason in all files. -/
theorem exists_planFor_error (h : ¬(settings.CanRead ∧ invocation.locations ≠ [])) :
    ∃ text, ∀ files, planFor invocation settings files = .error text := by
  by_cases hlocations : invocation.locations = []
  · exact ⟨noLocations, fun files => by rw [planFor, hlocations]; rfl⟩
  · cases hoptions : settings.detectorOptions with
    | ok options =>
        have hread := Settings.detectorOptions_eq_ok_iff.mp ⟨options, hoptions⟩
        exact absurd ⟨hread, hlocations⟩ h
    | error e =>
        refine ⟨e.message, fun files => ?_⟩
        rw [planFor, List.isEmpty_eq_false_iff.mpr hlocations, hoptions]
        rfl

/-- Logging that has started leaves the plan, and whether there is a base directory. -/
theorem exists_prepareWith_eq_planFor (invocation : Invocation) (h : settings.KnowsLogLevel)
    (s : Session) :
    ∃ files, (prepareWith invocation settings s).1 = planFor invocation settings files ∧
      (settings.HasBase files ↔ settings.HasBase s.files) := by
  obtain ⟨⟨notice, files, logger⟩, hstarted⟩ :=
    Settings.startLogging_of_knowsLogLevel h s.files s.logger
  refine ⟨files, ?_, Settings.hasBase_startLogging hstarted⟩
  rw [prepareWith, hstarted]

/-- A preparation that has got to its settings fails for the same reason in all sessions, unless a
base directory is all that is missing. -/
theorem exists_prepareWith_error
    (h : ¬(settings.KnowsLogLevel ∧ settings.CanRead ∧ invocation.locations ≠ [])) :
    ∃ text, ∀ s, (prepareWith invocation settings s).1 = .error text := by
  by_cases hlevel : settings.KnowsLogLevel
  · obtain ⟨text, hplan⟩ := exists_planFor_error fun hread => h ⟨hlevel, hread⟩
    refine ⟨text, fun s => ?_⟩
    obtain ⟨files, hprepare, -⟩ := exists_prepareWith_eq_planFor invocation hlevel s
    rw [hprepare, hplan]
  · have hunknown := Settings.startLogging_of_not_knowsLogLevel hlevel
    exact ⟨_, fun s => by rw [prepareWith, hunknown]⟩

/-- An invocation asks for nothing that is invalid: settings are in force with a log level that is
known and that documents can be read by, and there is a location. -/
structure Usable (invocation : Invocation) (files : FileSystem) (settings : Settings) : Prop where
  /-- The settings are in force. -/
  inForce : invocation.settings.InForce files settings
  /-- The log level is known. -/
  knowsLogLevel : settings.KnowsLogLevel
  /-- Documents can be read. -/
  canRead : settings.CanRead
  /-- There is a location. -/
  locations_ne_nil : invocation.locations ≠ []

/-- **An invalid invocation** fails with a message that is the same in every session in which the
settings file has the same table, whatever else is in the files, in the log or on standard
input. -/
theorem exists_prepare_error (h : ¬∃ settings, Usable invocation s.files settings) :
    ∃ text, ∀ s' : Session, invocation.settings.SameTable s.files s'.files →
      (prepare invocation s').1 = .error text := by
  rcases hs : invocation.settings.fillFromFile s.files with ⟨outcome, log, settings⟩
  -- what comes of the settings file is the same in both sessions
  have hsame : ∀ s' : Session, invocation.settings.SameTable s.files s'.files →
      ∃ log', invocation.settings.fillFromFile s'.files = (outcome, log', settings) := by
    intro s' hs'
    have hfill := Settings.fillFromFile_congr hs'
    rw [hs] at hfill
    exact ⟨(invocation.settings.fillFromFile s'.files).2.1,
      Prod.ext hfill.1 (Prod.ext rfl hfill.2)⟩
  cases outcome with
  | error e =>
      refine ⟨e.message, fun s' hs' => ?_⟩
      obtain ⟨log', hfill⟩ := hsame s' hs'
      rw [prepare, hfill]
  | ok =>
      have hinForce := Settings.fillFromFile_eq_ok_iff.mp ⟨log, hs⟩
      obtain ⟨text, hprepare⟩ := exists_prepareWith_error fun hrest =>
        h ⟨settings, hinForce, hrest.1, hrest.2.1, hrest.2.2⟩
      refine ⟨text, fun s' hs' => ?_⟩
      obtain ⟨log', hfill⟩ := hsame s' hs'
      rw [prepare, hfill]
      exact hprepare _

/-- **A valid invocation** is prepared for, unless a base directory is missing. -/
theorem prepare_of_usable (h : Usable invocation s.files settings) :
    ∃ options files, (prepare invocation s).1 =
      if settings.HasBase s.files then
        .ok { options, loader := settings.loader files, numeric := invocation.numeric }
      else .error Settings.noWorkingDirectory := by
  obtain ⟨options, hplan⟩ := planFor_of_canRead h.canRead h.locations_ne_nil
  obtain ⟨log, hfill⟩ := Settings.fillFromFile_eq_ok_iff.mpr h.inForce
  obtain ⟨files, hprepare, hbase⟩ :=
    exists_prepareWith_eq_planFor invocation h.knowsLogLevel (s.logAll log)
  have hlogged : settings.HasBase (s.logAll log).files ↔ settings.HasBase s.files :=
    or_congr_right (s.logged_logAll log).files.hasWorkingDirectory
  refine ⟨options, files, ?_⟩
  rw [prepare, hfill]
  simp only [hprepare, hplan, hbase, hlogged]

/-- **A preparation succeeds** exactly if the invocation is valid and has a base directory. -/
theorem prepare_succeeds_iff :
    (∃ plan, (prepare invocation s).1 = .ok plan) ↔
      ∃ settings, Usable invocation s.files settings ∧ settings.HasBase s.files := by
  constructor
  · rintro ⟨plan, hplan⟩
    by_cases h : ∃ settings, Usable invocation s.files settings
    · obtain ⟨settings, husable⟩ := h
      refine ⟨settings, husable, Classical.byContradiction fun hbase => ?_⟩
      obtain ⟨options, files, hprepare⟩ := prepare_of_usable husable
      rw [hplan, if_neg hbase] at hprepare
      cases hprepare
    · obtain ⟨text, hprepare⟩ := exists_prepare_error h
      rw [hprepare s fun _ _ => rfl] at hplan
      cases hplan
  · rintro ⟨settings, husable, hbase⟩
    obtain ⟨options, files, hprepare⟩ := prepare_of_usable husable
    exact ⟨_, hprepare.trans (if_pos hbase)⟩

/-! ### What a preparation leaves -/

/-- A preparation writes nothing but logs, and reads no standard input. -/
theorem prepare_quiet (invocation : Invocation) (s : Session) :
    (prepare invocation s).2.printed = s.printed ∧ (prepare invocation s).2.input = s.input := by
  rw [prepare]
  rcases invocation.settings.fillFromFile s.files with ⟨_ | _, log, settings⟩
  · have hlogged := s.logged_logAll log
    exact ⟨hlogged.printed, hlogged.input⟩
  · have hlogged := s.logged_logAll log
    rw [← hlogged.printed, ← hlogged.input]
    simp only [prepareWith]
    rcases settings.startLogging (s.logAll log).files (s.logAll log).logger with
      _ | ⟨notice, files, logger⟩
    · exact ⟨rfl, rfl⟩
    · exact ⟨printed_write_console _ notice, rfl⟩

/-- The plan shows modes as the arguments ask for it. -/
theorem numeric_of_prepare {plan : Plan} (h : (prepare invocation s).1 = .ok plan) :
    plan.numeric = invocation.numeric := by
  obtain ⟨settings, husable, hbase⟩ := prepare_succeeds_iff.mp ⟨plan, h⟩
  obtain ⟨options, files, hprepare⟩ := prepare_of_usable husable
  rw [h, if_pos hbase] at hprepare
  cases hprepare
  rfl

end Run

end DoctypeProbe
