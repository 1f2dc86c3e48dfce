import DoctypeProbe.Proofs.CommandLine.Ending

/-!
# Settings Files That Cannot Be Read

A run that is given a settings file should go by what the file says, or be refused. So loading
should come to a table only if the path leads to a file all of whose bytes have been read and denote
this table; and where the path leads to nothing that can be read, loading should fail and the run
end with status 2.

This holds of every path but those that lead to a directory. A directory opens as a file does, and
then its first read fails. That failure is lost, and what has been read by then is taken for the
whole file: it is empty, so the run goes by no settings at all.

## Main results

* `Settings.Store.load_eq_ok_iff`: what loading a settings file comes to.
* `Run.code_of_no_table`: a run whose settings file has no table ends with status 2.
* `Run.heeds_iff_not_directory`: the paths for which a file that cannot be read is not taken for an
  empty one.
-/

namespace DoctypeProbe

namespace Settings.Store

/-! ### Loading -/

/-- A path leads to a file, all of which has been read, and which denotes a table. -/
def ReadsAs (files : FileSystem) (path : Bytes) (t : Toml.Table) : Prop :=
  ∃ text, files.contentAt? path = some text ∧ Toml.parse text = .ok t

/-- A path leads to a directory. -/
def LeadsToDirectory (files : FileSystem) (path : Bytes) : Prop :=
  ∃ place, files.resolve path = .ok (place, .directory)

variable {files : FileSystem} {path : Bytes} {t : Toml.Table}

theorem parse_nil : Toml.parse [] = .ok [] := Toml.parse_eq_ok_iff.mpr ⟨[], {}, .nil, rfl, rfl⟩

theorem LeadsToDirectory.contentAt? (h : LeadsToDirectory files path) :
    files.contentAt? path = none := by
  obtain ⟨place, hplace⟩ := h
  rw [FileSystem.contentAt?, hplace]

/-- **What an attempt finds** is the table of a file, or no settings at all in a directory. -/
theorem tableAt?_eq_some_iff :
    tableAt? files path = some t ↔
      ReadsAs files path t ∨ (LeadsToDirectory files path ∧ t = []) := by
  rw [tableAt?, textAt?, ReadsAs, LeadsToDirectory, FileSystem.contentAt?]
  have htable : ∀ text : Bytes, (Toml.parse text).toOption = some t ↔ Toml.parse text = .ok t := by
    intro text
    cases Toml.parse text <;> simp [Except.toOption]
  rcases files.resolve path with e | ⟨place, _ | number⟩
  · simp
  · simp [parse_nil, Except.toOption, eq_comm]
  · simp [htable]

/-- **Loading a settings file** comes to the table that an attempt finds. -/
theorem load_eq_ok_iff :
    (({ fileName := path } : Store).load files).1 = .ok t ↔ tableAt? files path = some t := by
  have hfresh : ({ fileName := path } : Store).isLoaded = false := rfl
  have hends := attemptEnds_reload files { fileName := path }
  rw [load_of_not_isLoaded hfresh]
  rw [AttemptEnds] at hends
  cases htable : tableAt? files path with
  | some found =>
      simp only [htable] at hends
      obtain ⟨hok, -, hstore⟩ := hends
      simp [hok, hstore]
  | none =>
      simp only [htable] at hends
      simp [hends.1]

end Settings.Store

namespace Run

open Arguments Settings.Store

variable {args : List Bytes} {files : FileSystem} {path : Bytes} {s : Session}

/-! ### Runs -/

/-- The arguments can be read, and a run that is given them goes by the settings file at a path. -/
def Consults (args : List Bytes) (path : Bytes) : Prop :=
  ∃ items, Reads args items ∧ .help ∉ items ∧
    (requested items).settings.configFile = some path

/-- **A run whose settings file has no table** ends with status 2. -/
theorem code_of_no_table (h : Consults args path) (hnone : tableAt? s.files path = none) :
    (run args s).1.code = 2 := by
  obtain ⟨items, hreads, hhelp, hfile⟩ := h
  have hrefused : Refused args s.files := by
    refine .settingsFile hreads hhelp ?_
    rintro ⟨settings, hunnamed | ⟨hnamed, htable, -, -⟩⟩
    · rw [hfile] at hunnamed
      cases hunnamed
    · rw [hfile] at hnamed
      obtain rfl := Option.some.inj hnamed
      rw [hnone] at htable
      cases htable
  obtain ⟨text, hrun⟩ := run_of_refused hrefused
  exact (hrun s fun _ _ _ _ => rfl).1.code

/-- A settings file that cannot be read is not taken for an empty one. -/
structure Heeds (files : FileSystem) (path : Bytes) : Prop where
  /-- Loading comes to a table only if it is that of a file which has been read. -/
  reads : ∀ t, (({ fileName := path } : Settings.Store).load files).1 = .ok t →
    ReadsAs files path t
  /-- Loading fails where there is nothing that can be read. -/
  fails : files.contentAt? path = none →
    ∃ e, (({ fileName := path } : Settings.Store).load files).1 = .error e
  /-- So does a run that goes by the file. -/
  refuses : files.contentAt? path = none → ∀ args s, Consults args path → s.files = files →
    (run args s).1.code = 2

/-- **Only a directory is taken for an empty settings file.** For every path and all files, loading
comes to a table only if it is that of a file which has been read, and loading fails and a run that
goes by the file ends with status 2 where there is nothing to be read, exactly if the path does not
lead to a directory. -/
theorem heeds_iff_not_directory (files : FileSystem) (path : Bytes) :
    Heeds files path ↔ ¬LeadsToDirectory files path := by
  constructor
  · intro h hdirectory
    have htable : tableAt? files path = some [] := tableAt?_eq_some_iff.mpr (.inr ⟨hdirectory, rfl⟩)
    obtain ⟨text, htext, -⟩ := h.reads [] (load_eq_ok_iff.mpr htable)
    rw [hdirectory.contentAt?] at htext
    cases htext
  · intro hnot
    have hreads : ∀ t, tableAt? files path = some t → ReadsAs files path t := fun t ht =>
      (tableAt?_eq_some_iff.mp ht).resolve_right fun h => hnot h.1
    have hnone : files.contentAt? path = none → tableAt? files path = none := by
      intro hcontent
      refine Option.eq_none_iff_forall_ne_some.mpr fun t ht => ?_
      obtain ⟨text, htext, -⟩ := hreads t ht
      rw [hcontent] at htext
      cases htext
    refine ⟨fun t ht => hreads t (load_eq_ok_iff.mp ht), fun hcontent => ?_, ?_⟩
    · cases hload : (({ fileName := path } : Settings.Store).load files).1 with
      | error e => exact ⟨e, rfl⟩
      | ok t =>
          have ht := load_eq_ok_iff.mp hload
          rw [hnone hcontent] at ht
          cases ht
    · rintro hcontent args s hconsults rfl
      exact code_of_no_table hconsults (hnone hcontent)

/-! ### A run that goes by a directory -/

/-- A directory, and a document. -/
def directorySession : Session where
  files :=
    { entries := [([ascii "d"], .directory), ([ascii "a.xml"], .file 0)]
      contents := [(0, ascii "<!DOCTYPE r>")] }
  input := none
  stamp := ⟨⟨2000, 1, 1, 0, 0, 0, 0⟩, 0⟩

/-- Arguments that give the directory as the settings file. -/
def directoryArguments : List Bytes := [ascii "--config", ascii "d", ascii "a.xml"]

/-- The arguments as items. -/
def directoryItems : List Item := [.value .config (ascii "d"), .location (ascii "a.xml")]

/-- **A directory taken for an empty file**: loading comes to the empty table without a word in the
log, and the run is not refused. -/
theorem not_refused_directorySample :
    directorySession.files.contentAt? (ascii "d") = none ∧
      (({ fileName := ascii "d" } : Settings.Store).load directorySession.files).1 = .ok [] ∧
      Consults directoryArguments (ascii "d") ∧
      (run directoryArguments directorySession).1.code ≠ 2 := by
  have hdirectory : LeadsToDirectory directorySession.files (ascii "d") :=
    ⟨[ascii "d"], by decide +kernel⟩
  have htable : tableAt? directorySession.files (ascii "d") = some [] :=
    tableAt?_eq_some_iff.mpr (.inr ⟨hdirectory, rfl⟩)
  have hreads : Reads directoryArguments directoryItems :=
    .cons (.value (by decide) rfl) (.cons (.location rfl) .nil)
  have hhelp : .help ∉ directoryItems := by decide
  have hfile : (requested directoryItems).settings.configFile = some (ascii "d") := rfl
  have haccepted : Accepted directoryItems directorySession.files := by
    refine ⟨_, ⟨.named hfile htable ?_ ?_, ⟨.info, by decide⟩, ⟨nofun, nofun⟩,
      List.cons_ne_nil _ _⟩, Or.inr rfl⟩
    · rintro ⟨-, n, hn, -⟩
      cases hn
    · rintro ⟨-, items, hitems, -⟩
      cases hitems
  refine ⟨hdirectory.contentAt?, load_eq_ok_iff.mpr htable, ⟨_, hreads, hhelp, hfile⟩, ?_⟩
  obtain ⟨plan, s₀, -, hrecorded⟩ := run_of_accepted hreads hhelp haccepted
  intro hcode
  -- a run that has looked at its locations ends with 0 or 1
  have hnotOne := mt hrecorded.code_eq_one_iff.mpr (by rw [hcode]; decide)
  have hzero := hrecorded.code_eq_zero_iff.mpr fun e he => hnotOne ⟨e, he⟩
  rw [hcode] at hzero
  cases hzero

end Run

end DoctypeProbe
