import DoctypeProbe.Proofs.FileSystem.Opening
import DoctypeProbe.Proofs.Settings.Attempts
import DoctypeProbe.Proofs.Settings.Layering

/-!
# Settings in Force

The settings that a run goes by are those of its arguments, laid over those of the settings file if
the arguments name one. There are none if the settings file has no table, or a table with a value
that cannot be used. What is found in the settings file is all that they depend on.

Settings that are in force can still be of no use: a log level or a charset may be unknown, or the
read buffer may have no size. And where no base directory is set, the working directory has to be
there.

## Main results

* `Settings.fillFromFile_eq_ok_iff`: the settings in force.
* `Settings.fillFromFile_congr`: they depend on the table of the settings file alone.
* `Settings.startLogging_of_knowsLogLevel`, `Settings.detectorOptions_eq_ok_iff`: which settings
  are of use.
* `Settings.makeLoader_eq`: which of them locations can be resolved by.
-/

namespace DoctypeProbe

namespace Settings

/-! ### The settings file -/

/-- The settings in force where settings have been given with the arguments. -/
inductive InForce (files : FileSystem) (s : Settings) : Settings → Prop
  /-- No settings file is named. -/
  | unnamed (h : s.configFile = none) : InForce files s s
  /-- The settings file has a table whose values can be used. -/
  | named {path : Bytes} {t : Toml.Table} (h : s.configFile = some path)
      (ht : Store.tableAt? files path = some t) (hsize : ¬UnusableBufferSize s t)
      (hpaths : ¬UnusableSearchPaths s t) : InForce files s (s.overlay (given t))

/-- The settings file holds the same table in two file systems, if there is a settings file. -/
def SameTable (s : Settings) (files files' : FileSystem) : Prop :=
  ∀ path, s.configFile = some path → Store.tableAt? files' path = Store.tableAt? files path

variable {s u : Settings} {files files' : FileSystem} {path : Bytes}

/-- A settings file with a table is filled in from it, and nothing is logged. -/
theorem fillFromFile_of_table {t : Toml.Table} (h : s.configFile = some path)
    (ht : Store.tableAt? files path = some t) :
    s.fillFromFile files = ((s.fill t).1, [], (s.fill t).2) := by
  have hfresh : ({ fileName := path } : Store).isLoaded = false := rfl
  have hends := Store.attemptEnds_reload files { fileName := path }
  rw [Store.AttemptEnds, ht] at hends
  obtain ⟨hok, hlog, hstore⟩ := hends
  rw [fillFromFile, h]
  simp only [Store.load_of_not_isLoaded hfresh, hok, hlog, hstore, if_true]

/-- A settings file without a table is an error, and leaves the settings. -/
theorem fillFromFile_of_no_table (h : s.configFile = some path)
    (ht : Store.tableAt? files path = none) :
    ∃ log, s.fillFromFile files = (.error (.notLoaded path), log, s) := by
  have hfresh : ({ fileName := path } : Store).isLoaded = false := rfl
  have hends := Store.attemptEnds_reload files { fileName := path }
  rw [Store.AttemptEnds, ht] at hends
  obtain ⟨hok, ⟨text, hlog⟩, -⟩ := hends
  refine ⟨[⟨.warning, text⟩], ?_⟩
  rw [fillFromFile, h]
  simp only [Store.load_of_not_isLoaded hfresh, hok, hlog, Bool.false_eq_true, if_false]

/-- **Filling in from the settings file** succeeds with the settings in force, if there are
any. -/
theorem fillFromFile_eq_ok_iff :
    (∃ log, s.fillFromFile files = (.ok (), log, u)) ↔ InForce files s u := by
  constructor
  · rintro ⟨log, hfill⟩
    cases h : s.configFile with
    | none =>
        rw [fillFromFile, h] at hfill
        cases hfill
        exact .unnamed h
    | some path =>
        cases ht : Store.tableAt? files path with
        | none =>
            obtain ⟨log', hfill'⟩ := fillFromFile_of_no_table h ht
            rw [hfill'] at hfill
            cases hfill
        | some t =>
            rw [fillFromFile_of_table h ht, Prod.mk.injEq, Prod.mk.injEq] at hfill
            obtain ⟨hok, -, hu⟩ := hfill
            obtain ⟨hsize, hpaths⟩ := fill_succeeds_iff.mp hok
            rw [← hu, fill_eq_of_ok hok]
            exact .named h ht hsize hpaths
  · rintro (h | ⟨h, ht, hsize, hpaths⟩)
    · exact ⟨[], by rw [fillFromFile, h]⟩
    · exact ⟨[], by rw [fillFromFile_of_table h ht, fill_of_usable hsize hpaths]⟩

/-- There is one choice at most of settings in force. -/
theorem InForce.unique {v : Settings} (hu : InForce files s u) (hv : InForce files s v) :
    u = v := by
  obtain ⟨log, hu⟩ := fillFromFile_eq_ok_iff.mpr hu
  obtain ⟨log', hv⟩ := fillFromFile_eq_ok_iff.mpr hv
  rw [hu] at hv
  cases hv
  rfl

/-- **What comes of the settings file** depends on its table alone, apart from what is logged. -/
theorem fillFromFile_congr (h : s.SameTable files files') :
    (s.fillFromFile files').1 = (s.fillFromFile files).1 ∧
      (s.fillFromFile files').2.2 = (s.fillFromFile files).2.2 := by
  cases hfile : s.configFile with
  | none =>
      rw [fillFromFile, fillFromFile, hfile]
      exact ⟨rfl, rfl⟩
  | some path =>
      have htable := h path hfile
      cases ht : Store.tableAt? files path with
      | none =>
          obtain ⟨log, hfill⟩ := fillFromFile_of_no_table hfile ht
          obtain ⟨log', hfill'⟩ := fillFromFile_of_no_table hfile (htable.trans ht)
          rw [hfill, hfill']
          exact ⟨rfl, rfl⟩
      | some t =>
          rw [fillFromFile_of_table hfile ht, fillFromFile_of_table hfile (htable.trans ht)]
          exact ⟨rfl, rfl⟩

/-! ### Settings of use -/

/-- The log level is one that is known. -/
def KnowsLogLevel (s : Settings) : Prop :=
  ∃ level, Log.Level.parse? (s.logLevel.getD defaultLogLevel) = some level

/-- The charset is one that is known, and the read buffer has a size. -/
def CanRead (s : Settings) : Prop :=
  (∀ name, s.charset = some name → ∃ charset, Charset.parse? name = some charset) ∧
    s.bufferSize ≠ some 0

/-- **Logging starts** with a log level that is known. -/
theorem startLogging_of_knowsLogLevel (h : s.KnowsLogLevel) (files : FileSystem)
    (logger : Log.Logger) : ∃ started, s.startLogging files logger = .ok started := by
  obtain ⟨level, hlevel⟩ := h
  exact ⟨_, by rw [startLogging, hlevel]⟩

theorem startLogging_of_not_knowsLogLevel (h : ¬s.KnowsLogLevel) (files : FileSystem)
    (logger : Log.Logger) :
    s.startLogging files logger = .error (.unknownLogLevel (s.logLevel.getD defaultLogLevel)) := by
  rw [startLogging]
  cases hlevel : Log.Level.parse? (s.logLevel.getD defaultLogLevel) with
  | none => rfl
  | some level => exact absurd ⟨level, hlevel⟩ h

/-- **Documents can be read** exactly with a known charset and a read buffer that has a size. -/
theorem detectorOptions_eq_ok_iff :
    (∃ options, s.detectorOptions = .ok options) ↔ s.CanRead := by
  rw [detectorOptions, CanRead]
  cases s.charset with
  | none =>
      cases s.bufferSize with
      | none => simp [bind, Except.bind, pure, Except.pure]
      | some n => cases n <;> simp [bind, Except.bind, pure, Except.pure]
  | some name =>
      cases hparse : Charset.parse? name with
      | none => simp [hparse, bind, Except.bind]
      | some charset =>
          cases s.bufferSize with
          | none => simp [hparse, bind, Except.bind, pure, Except.pure]
          | some n => cases n <;> simp [hparse, bind, Except.bind, pure, Except.pure]

/-- Relative locations have a base directory: one is set, or the working directory is there. -/
def HasBase (s : Settings) (files : FileSystem) : Prop :=
  s.baseDirectory ≠ none ∨ files.HasWorkingDirectory

instance (s : Settings) (files : FileSystem) : Decidable (s.HasBase files) :=
  inferInstanceAs (Decidable (_ ∨ _))

/-- **Locations can be resolved** exactly if they have a base directory. -/
theorem makeLoader_eq {σ : Type} (s : Settings) (files : FileSystem) :
    (s.makeLoader files : Except Bytes (Loader σ)) =
      if s.HasBase files then .ok (s.loader files) else .error noWorkingDirectory := by
  rw [makeLoader, ← ite_not]
  refine if_congr ?_ rfl rfl
  rw [HasBase, not_and_or, not_not]

/-- Starting to log does not decide whether there is a base directory. -/
theorem hasBase_startLogging {notice : Bytes} {logger logger' : Log.Logger}
    (h : s.startLogging files logger = .ok (notice, files', logger')) :
    u.HasBase files' ↔ u.HasBase files := by
  refine or_congr_right ?_
  rw [startLogging] at h
  cases hlevel : Log.Level.parse? (s.logLevel.getD defaultLogLevel) with
  | none =>
      rw [hlevel] at h
      cases h
  | some level =>
      simp only [hlevel, Log.Logger.start] at h
      split_ifs at h
      · cases h
        exact Iff.rfl
      · cases hopened : files.openAppend (s.logFile.getD []) with
        | error e =>
            rw [hopened] at h
            cases h
            exact Iff.rfl
        | ok opened =>
            rw [hopened] at h
            cases h
            exact FileSystem.hasWorkingDirectory_openAppend hopened

end Settings

end DoctypeProbe
