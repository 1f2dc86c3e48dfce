import DoctypeProbe.Proofs.CommandLine.Records
import DoctypeProbe.Proofs.Detector.AtPath
import DoctypeProbe.Proofs.Loader

/-!
# What a Run Remembers

A run remembers the modes that it has found, by the descriptions of their resources, and does not
open a resource again whose mode it knows. What comes of looking at a location is the same without
this memory, unless the location is standard input or the log file.

What carries the proof is an invariant of a run (`Run.Sound`): a mode that is remembered under the
description of a path is the mode at this path in the files that the run has begun with. Three facts
keep it. Descriptions tell paths apart; what a run writes goes to the log file, so the mode at any
other path stays; and a failure is never put down.

## Main results

* `Run.examine_of_sound`: one location.
* `Run.outcomes_of_sound`: all of them, each as if it were the first.
* `Run.not_remembered_of_error`: a failure is not remembered.
-/

namespace DoctypeProbe

namespace Run

open Session

/-! ### Locations without a memory -/

/-- What comes of looking at a location when nothing is remembered. -/
def outcomeAt (plan : Plan) (files : FileSystem) (location : Bytes) : Except Failure Mode :=
  match (plan.loader.locate files location).1 with
  | .error e => .error e
  | .ok resource => (resource.detect plan.options files).1

/-- A location that is found has the mode at its path. -/
theorem outcomeAt_of_locate {plan : Plan} {files : FileSystem} {location : Bytes} {path : Path}
    (h : (plan.loader.locate files location).1 = .ok (.file path)) :
    outcomeAt plan files location = Detector.modeAt plan.options files path.text := by
  rw [outcomeAt, h]
  exact Resource.detect_file plan.options files path

/-- A location leads to the file with a given number. -/
def LeadsTo (plan : Plan) (files : FileSystem) (location : Bytes) (number : Nat) : Prop :=
  ∃ path, (plan.loader.locate files location).1 = .ok (.file path) ∧
    Detector.LeadsTo files path.text number

/-- A location is neither standard input nor the log file of a session. -/
structure Plain (plan : Plan) (s : Session) (location : Bytes) : Prop where
  /-- The location is not standard input. -/
  ne_input : location ≠ inputLocation
  /-- The location does not lead to the log file. -/
  not_log : ∀ number, s.logger.file = some number → ¬LeadsTo plan s.files location number

/-- The mode of what a location leads to is remembered. -/
def Remembered (plan : Plan) (location : Bytes) (state : State) : Prop :=
  ∃ resource mode, (plan.loader.locate state.session.files location).1 = .ok resource ∧
    state.known.get? resource.description = some mode

/-! ### The invariant -/

/-- What is remembered holds in the session that a run has begun with: every mode that is remembered
for a path is the mode at this path. -/
structure Sound (plan : Plan) (s : Session) (state : State) : Prop where
  /-- The same documents can be read as at the beginning. -/
  sameDocuments : SameDocuments s state.session
  /-- What is remembered for a path is the mode at this path. -/
  known : ∀ (path : Path) (mode : Mode),
    state.known.get? (Resource.file path : Resource Empty).description = some mode →
      Detector.modeAt plan.options s.files path.text = .ok mode

variable {plan : Plan} {s : Session} {state : State} {location : Bytes}

/-- Nothing is remembered at the beginning. -/
theorem sound_start (plan : Plan) (s : Session) : Sound plan s { session := s } :=
  ⟨.refl s, nofun⟩

/-- **One resource** is looked at as if nothing were remembered, and a mode that is found can be
remembered. -/
theorem examineResource_of_sound {path : Path} (h : Sound plan s state)
    (hlog : ∀ number, s.logger.file = some number → ¬Detector.LeadsTo s.files path.text number) :
    (examineResource plan.options (.file path) state).1 =
        Detector.modeAt plan.options s.files path.text ∧
      Sound plan s (examineResource plan.options (.file path) state).2 := by
  rw [examineResource]
  cases hknown : state.known.get? (Resource.file path : Resource Empty).description with
  | some mode => exact ⟨(h.known path mode hknown).symm, h⟩
  | none =>
      have hdetect : ((Resource.file path : Resource Empty).detect plan.options
          state.session.files).1 = Detector.modeAt plan.options s.files path.text := by
        rw [Resource.detect_file, Detector.modeAt_congr h.sameDocuments.files hlog]
      rcases hresource : (Resource.file path : Resource Empty).detect plan.options
        state.session.files with ⟨outcome, log, resource⟩
      rw [hresource] at hdetect
      have hlogged := h.sameDocuments.trans (state.session.logged_logAll log).toSameDocuments
      cases outcome with
      | error e => exact ⟨hdetect, hlogged, h.known⟩
      | ok mode =>
          refine ⟨hdetect, hlogged, fun path' mode' hmode => ?_⟩
          -- a path that finds the new entry has the description of `path`, and so its text
          rw [Keyed.get?_insert] at hmode
          split at hmode
          · rename_i hsame
            cases hmode
            rw [Resource.text_eq_of_description_eq hsame]
            exact hdetect.symm
          · exact h.known path' mode' hmode

/-- **One location** is looked at as if nothing were remembered. -/
theorem examine_of_sound (h : Sound plan s state) (hplain : Plain plan s location) :
    (examine plan location state).1 = outcomeAt plan s.files location ∧
      Sound plan s (examine plan location state).2 := by
  rw [examine, if_neg hplain.ne_input, outcomeAt, Loader.locate_congr h.sameDocuments.files]
  rcases hlocated : plan.loader.locate s.files location with ⟨found, log⟩
  have hlogged : Sound plan s { state with session := state.session.logAll log } :=
    ⟨h.sameDocuments.trans (state.session.logged_logAll log).toSameDocuments, h.known⟩
  cases found with
  | error e => exact ⟨rfl, hlogged⟩
  | ok resource =>
      -- a location never leads to bytes or a stream, so the resource is a file
      have hfound : (plan.loader.locate s.files location).1 = .ok resource := by rw [hlocated]
      obtain ⟨path, -, rfl⟩ := Loader.exists_path_of_locate hfound
      have hlog : ∀ number, s.logger.file = some number →
          ¬Detector.LeadsTo s.files path.text number :=
        fun number hnumber hleads => hplain.not_log number hnumber ⟨path, hfound, hleads⟩
      simp only [Resource.detect_file]
      exact examineResource_of_sound hlogged hlog

/-- **One record** keeps what is remembered. -/
theorem visit_of_sound (h : Sound plan s state) (hplain : Plain plan s location) :
    Sound plan s (visit plan location state).2 := by
  obtain ⟨-, hsound⟩ := examine_of_sound h hplain
  exact ⟨hsound.sameDocuments.trans (sameDocuments_record _ _ _ _), hsound.known⟩

/-- **All locations** are looked at as if each were the first. Induction on the locations: each of
them leaves the invariant to those behind it. -/
theorem outcomes_of_sound {locations : List Bytes} (h : Sound plan s state)
    (hplain : ∀ location ∈ locations, Plain plan s location) :
    outcomes plan locations state = locations.map (outcomeAt plan s.files) := by
  induction locations generalizing state with
  | nil => rfl
  | cons location locations ih =>
      obtain ⟨hfirst, hrest⟩ := List.forall_mem_cons.mp hplain
      rw [outcomes, List.map_cons, (examine_of_sound h hfirst).1,
        ih (visit_of_sound h hfirst) hrest]

/-- What is remembered holds throughout a run. -/
theorem visitAll_of_sound {locations : List Bytes} (h : Sound plan s state)
    (hplain : ∀ location ∈ locations, Plain plan s location) :
    Sound plan s (visitAll plan locations state).2 := by
  induction locations generalizing state with
  | nil => exact h
  | cons location locations ih =>
      obtain ⟨hfirst, hrest⟩ := List.forall_mem_cons.mp hplain
      exact ih (visit_of_sound h hfirst) hrest

/-- **A failure is not remembered.** -/
theorem not_remembered_of_error {e : Failure} (h : Sound plan s state)
    (hfails : outcomeAt plan s.files location = .error e) : ¬Remembered plan location state := by
  rintro ⟨resource, mode, hlocated, hmode⟩
  rw [Loader.locate_congr h.sameDocuments.files] at hlocated
  obtain ⟨path, -, rfl⟩ := Loader.exists_path_of_locate hlocated
  rw [outcomeAt, hlocated] at hfails
  simp only [Resource.detect_file, h.known path mode hmode] at hfails
  cases hfails

end Run

end DoctypeProbe
