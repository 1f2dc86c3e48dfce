import DoctypeProbe.Proofs.CommandLine.Records
import DoctypeProbe.Proofs.Detector.Ownership
import DoctypeProbe.Proofs.Detector.Reads
import Mathlib.Data.List.Induction

/-!
# Standard Input Is Shared

Standard input can be named any number of times among the locations of a run. Each use goes on
where the last one has left it, so that nothing is lost between two uses and nothing is seen twice.
A use takes whole blocks, as many as its detection needs, and with them whatever stands behind the
line that decides.

What a use finds and what it takes is a function of the options and of what is left, and what is
left depends on the uses before it alone (`Run.shares`). Other locations have no part in this, and
neither has what is remembered.

## Main results

* `Run.detect_input`: a use of standard input finds and takes what a metered one does.
* `Run.input_visitAll`: what a list of locations leaves of standard input.
* `Run.visitAll_shares_input`: each use among any other locations.
-/

namespace DoctypeProbe

namespace Run

open Session Detector

/-! ### What uses of standard input take -/

/-- The number of bytes that a detection of the rest of standard input takes from it. -/
def share (options : Options) (rest : Bytes) : Nat :=
  (readsOf options.charset options.bufferSize rest inputName).consumed

/-- The shares of the first uses of standard input, in order: each takes its share of what those
before it have left. -/
def shares (options : Options) (d : Bytes) : Nat → List Nat
  | 0 => []
  | i + 1 => shares options d i ++ [share options (d.drop (shares options d i).sum)]

variable (options : Options)

/-- **A share is made of whole blocks**, just enough of them, or it is all that is left. -/
theorem exists_share_eq (rest : Bytes) :
    ∃ k, IsLeast {k | Enough options.charset (max options.bufferSize 1) rest k} k ∧
      share options rest = min rest.length (max options.bufferSize 1 * k) := by
  obtain ⟨k, hleast, hconsumed, -⟩ :=
    exists_isLeast_enough options.charset options.bufferSize rest inputName
  exact ⟨k, hleast, hconsumed⟩

/-- What a metered detection leaves is what stands behind the share. -/
theorem rest_readsOf (rest : Bytes) :
    (readsOf options.charset options.bufferSize rest inputName).inner.rest =
      rest.drop (share options rest) := by
  obtain ⟨k, -, hconsumed, hrest⟩ :=
    exists_isLeast_enough options.charset options.bufferSize rest inputName
  rw [share, hconsumed, hrest]
  rcases Nat.le_total rest.length (max options.bufferSize 1 * k) with hle | hle
  · rw [Nat.min_eq_left hle, List.drop_length, List.drop_eq_nil_of_le hle]
  · rw [Nat.min_eq_right hle]

/-- **A detection of standard input** finds the mode of what is left, and takes its share. -/
theorem detect_input (rest : Bytes) :
    let detection := detect options ({ rest, description := inputName } : MemorySource)
    detection.outcome = .ok (modeOf options.charset rest) ∧
      detection.source.rest = rest.drop (share options rest) := by
  have hread : ∀ (m : Metered MemorySource) n,
      InputSource.read m.inner n = (InputSource.read m n).map id Metered.inner := by
    intro m n
    have hmetered : InputSource.read m n = Metered.read m n := rfl
    rw [hmetered, Metered.read]
    rcases InputSource.read m.inner n with ⟨e | bs, s⟩ <;> rfl
  have hmetered := detect_through hread (fun _ => rfl) (fun _ => rfl) options
    { inner := { rest, description := inputName } }
  refine ⟨?_, ?_⟩
  · rw [detect_memory, firstDecision_eq_modeOf]
  · rw [← rest_readsOf]
    exact congrArg (fun run => run.source.rest) hmetered

/-! ### One location -/

variable (plan : Plan)

theorem input_record (numeric : Bool) (location : Bytes) (outcome : Except Failure Mode)
    (s : Session) : (record numeric location outcome s).input = s.input := by
  cases outcome with
  | ok mode => exact (logged_log _ _).input
  | error e => exact (logged_log s _).input

/-- **Any other location** leaves standard input where it is. -/
theorem input_visit_of_ne {location : Bytes} (h : location ≠ inputLocation) (s : State) :
    (visit plan location s).2.session.input = s.session.input := by
  rw [visit, input_record]
  exact (logged_examine plan h s).input

variable {s : State} {rest : Bytes}

/-- **Standard input** has the mode of what is left of it. -/
theorem examine_input (h : s.session.input = some rest) :
    (examine plan inputLocation s).1 = .ok (modeOf plan.options.charset rest) := by
  have houtcome := (detect_input plan.options rest).1
  rw [examine, if_pos rfl, examineInput, h]
  exact congrArg (Except.mapError Failure.io) houtcome

/-- A use of standard input takes its share, and nothing is remembered of it. -/
theorem visit_input (h : s.session.input = some rest) :
    (visit plan inputLocation s).2.session.input =
        some (rest.drop (share plan.options rest)) ∧
      (visit plan inputLocation s).2.known = s.known := by
  have hrest := (detect_input plan.options rest).2
  rw [visit, input_record, examine, if_pos rfl, examineInput, h]
  exact ⟨(logged_logAll _ _).input.trans (congrArg some hrest), rfl⟩

/-! ### All locations -/

/-- **What locations leave of standard input** is what the uses among them have not taken. The
induction adds a location at the end, as a share comes last. -/
theorem input_visitAll (h : s.session.input = some rest) (locations : List Bytes) :
    (visitAll plan locations s).2.session.input =
      some (rest.drop (shares plan.options rest (locations.count inputLocation)).sum) := by
  induction locations using List.reverseRecOn with
  | nil => exact h
  | append_singleton locations location ih =>
      rw [visitAll_append]
      by_cases hl : location = inputLocation
      · subst hl
        rw [List.count_append, List.count_singleton_self, shares, List.sum_append,
          List.sum_singleton, ← List.drop_drop]
        exact (visit_input plan ih).1
      · rw [List.count_append, List.count_singleton, if_neg (mt beq_iff_eq.mp hl)]
        exact (input_visit_of_ne plan hl _).trans ih

/-- **Standard input is shared without loss or repetition.** Take any locations, with standard
input among them behind `front`, and let standard input hold `d` when they are looked at. Let the
uses of it in `front` have taken their shares of `d`, one after the other. Then

* this use finds what is left of `d`, and its record shows the mode of that, whatever the other
  locations are and whatever is remembered;
* it takes a share of what is left and leaves the rest of it, and nothing is remembered of it;
* its share is made of as many whole blocks as are just enough for the decision or for the end of
  input, the last of them cut off where the input ends. -/
theorem visitAll_shares_input (plan : Plan) (session : Session) (d : Bytes) (known : Keyed Mode)
    (front back : List Bytes) :
    let start : State := { session := { session with input := some d }, known }
    let before := (visitAll plan front start).2
    let after := (visitAll plan (front ++ [inputLocation]) start).2
    let i := front.count inputLocation
    let rest := d.drop (shares plan.options d i).sum
    let n := max plan.options.bufferSize 1
    before.session.input = some rest ∧
    (outcomes plan (front ++ inputLocation :: back) start)[front.length]? =
      some (.ok (modeOf plan.options.charset rest)) ∧
    after.session.input = some (rest.drop (share plan.options rest)) ∧
    after.known = before.known ∧
    ∃ k, IsLeast {k | Enough plan.options.charset n rest k} k ∧
      share plan.options rest = min rest.length (n * k) := by
  intro start before after i rest n
  have hbefore : before.session.input = some rest := input_visitAll plan rfl front
  have hvisit := visit_input plan hbefore
  have hafter : after = (visit plan inputLocation before).2 := visitAll_append plan front _ start
  refine ⟨hbefore, ?_, hafter ▸ hvisit.1, hafter ▸ hvisit.2, exists_share_eq plan.options rest⟩
  have hlength := length_outcomes plan front start
  rw [outcomes_append, List.getElem?_append_right hlength.le, hlength, Nat.sub_self, outcomes,
    List.getElem?_cons_zero]
  exact congrArg some (examine_input plan hbefore)

end Run

end DoctypeProbe
