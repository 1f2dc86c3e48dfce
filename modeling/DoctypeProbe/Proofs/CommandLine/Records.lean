import DoctypeProbe.CommandLine.Run
import DoctypeProbe.Proofs.CommandLine.Session

/-!
# One Record a Location

A run that has got to its locations writes one record for each of them, in order, and nothing else.
The record is a line with the mode on standard output, or a message that says why there is none; a
failure is recorded like a mode, and the run goes on. The records are spelled out byte by byte
(`Run.entry`), apart from the functions that write them.

## Main results

* `Run.printed_visit`: one location.
* `Run.printed_visitAll`: all of them.
* `Run.visitAll_fst`: whether all of them have a mode.
-/

namespace DoctypeProbe

namespace Run

open Session

/-! ### Records -/

/-- How a mode is shown: by its number, or by its name. -/
def shown : Bool → Mode → Bytes
  | true, .off => ascii "0"
  | true, .auto => ascii "1"
  | true, .dtd => ascii "2"
  | true, .xsd => ascii "3"
  | false, .off => ascii "NONE"
  | false, .auto => ascii "AUTO"
  | false, .dtd => ascii "DTD"
  | false, .xsd => ascii "XSD"

/-- The record of a location: the channel that it goes to, and its text. -/
def entry (numeric : Bool) (location : Bytes) : Except Failure Mode → Channel × Bytes
  | .ok mode => (.results, location ++ ascii "\t" ++ shown numeric mode ++ ascii "\n")
  | .error e =>
    (.messages,
      ascii "xmlmode: " ++ location ++ ascii ": " ++ e.message.untilNul ++ ascii "\n")

theorem modeText_eq_shown (numeric : Bool) (mode : Mode) :
    modeText numeric mode = shown numeric mode := by
  cases numeric with
  | false => cases mode <;> rfl
  | true =>
      rw [modeText, if_pos rfl, Bytes.decimal]
      cases mode <;> decide +kernel

theorem resultLine_eq (numeric : Bool) (location : Bytes) (mode : Mode) :
    resultLine numeric location mode =
      location ++ ascii "\t" ++ shown numeric mode ++ ascii "\n" := by
  have htab : ascii "\t" = [Ascii.tab] := by decide +kernel
  have hlf : ascii "\n" = [Ascii.lf] := by decide +kernel
  rw [resultLine, modeText_eq_shown, htab, hlf, List.append_assoc location [Ascii.tab]]
  rfl

theorem messageLine_eq (text : Bytes) :
    messageLine text = ascii "xmlmode: " ++ text ++ ascii "\n" := by
  have hlf : ascii "\n" = [Ascii.lf] := by decide +kernel
  rw [messageLine, hlf]

/-- A record is written once, and logging it writes nothing more. -/
theorem printed_record (numeric : Bool) (location : Bytes) (outcome : Except Failure Mode)
    (s : Session) :
    (record numeric location outcome s).printed =
      s.printed ++ [entry numeric location outcome] := by
  cases outcome with
  | ok mode =>
      have hchannel : Channel.results ≠ .console := nofun
      rw [record, (logged_log _ _).printed, printed_write hchannel, resultLine_eq]
      rfl
  | error e =>
      have hchannel : Channel.messages ≠ .console := nofun
      rw [record, printed_write hchannel, (logged_log s _).printed, messageLine_eq, failureText,
        ← List.append_assoc, ← List.append_assoc]
      rfl

theorem sameDocuments_record (numeric : Bool) (location : Bytes)
    (outcome : Except Failure Mode) (s : Session) :
    SameDocuments s (record numeric location outcome s) := by
  cases outcome with
  | ok mode =>
      exact (s.sameDocuments_write _ _).trans (logged_log _ _).toSameDocuments
  | error e =>
      exact (logged_log s _).toSameDocuments.trans (sameDocuments_write _ _ _)

/-! ### One location -/

variable (plan : Plan)

/-- Looking at a resource only logs. -/
theorem logged_examineResource (options : Detector.Options) (resource : Resource Empty)
    (s : State) : Logged s.session (examineResource options resource s).2.session := by
  rw [examineResource]
  split
  · exact .refl _
  · rcases resource.detect options s.session.files with ⟨outcome, log, resource'⟩
    cases outcome <;> exact s.session.logged_logAll log

/-- Looking at a location other than standard input only logs. -/
theorem logged_examine {location : Bytes} (h : location ≠ inputLocation) (s : State) :
    Logged s.session (examine plan location s).2.session := by
  rw [examine, if_neg h]
  rcases plan.loader.locate s.session.files location with ⟨found, log⟩
  have hlocated := s.session.logged_logAll log
  cases found with
  | error e => exact hlocated
  | ok resource =>
      exact hlocated.trans (logged_examineResource plan.options resource
        { s with session := s.session.logAll log })

/-- Looking at standard input writes nothing. -/
theorem printed_examineInput (options : Detector.Options) (s : Session) :
    (examineInput options s).2.printed = s.printed := by
  rw [examineInput]
  split
  · rfl
  · exact (logged_logAll _ _).printed

/-- Looking at a location writes nothing. -/
theorem printed_examine (location : Bytes) (s : State) :
    (examine plan location s).2.session.printed = s.session.printed := by
  by_cases h : location = inputLocation
  · rw [examine, if_pos h]
    exact printed_examineInput plan.options s.session
  · exact (logged_examine plan h s).printed

/-- **One location** has one record. -/
theorem printed_visit (location : Bytes) (s : State) :
    (visit plan location s).2.session.printed =
      s.session.printed ++ [entry plan.numeric location (examine plan location s).1] := by
  rw [visit, printed_record, printed_examine]

/-! ### All locations -/

/-- What comes of looking at locations in order, each in the state that those before it have
left. -/
def outcomes : List Bytes → State → List (Except Failure Mode)
  | [], _ => []
  | location :: locations, s =>
    (examine plan location s).1 :: outcomes locations (visit plan location s).2

/-- Every location is looked at, whatever comes of those before it. -/
theorem length_outcomes (locations : List Bytes) (s : State) :
    (outcomes plan locations s).length = locations.length := by
  induction locations generalizing s with
  | nil => rfl
  | cons location locations ih => rw [outcomes, List.length_cons, List.length_cons, ih]

/-- Locations behind others are looked at in the state that those have left. -/
theorem visitAll_append (front back : List Bytes) (s : State) :
    (visitAll plan (front ++ back) s).2 =
      (visitAll plan back (visitAll plan front s).2).2 := by
  induction front generalizing s with
  | nil => rfl
  | cons location front ih =>
      rw [List.cons_append, visitAll, visitAll]
      exact ih (visit plan location s).2

theorem outcomes_append (front back : List Bytes) (s : State) :
    outcomes plan (front ++ back) s =
      outcomes plan front s ++ outcomes plan back (visitAll plan front s).2 := by
  induction front generalizing s with
  | nil => rfl
  | cons location front ih =>
      rw [List.cons_append, outcomes, outcomes, ih, List.cons_append]
      rfl

/-- **Every location has one record**, in order. -/
theorem printed_visitAll (locations : List Bytes) (s : State) :
    (visitAll plan locations s).2.session.printed =
      s.session.printed ++
        List.zipWith (entry plan.numeric) locations (outcomes plan locations s) := by
  induction locations generalizing s with
  | nil => exact (List.append_nil _).symm
  | cons location locations ih =>
      rw [visitAll, outcomes, List.zipWith_cons_cons, ih, printed_visit, List.append_assoc]
      rfl

/-- **All locations have a mode** if no outcome is a failure. -/
theorem visitAll_fst (locations : List Bytes) (s : State) :
    (visitAll plan locations s).1 = (outcomes plan locations s).all (·.isOk) := by
  induction locations generalizing s with
  | nil => rfl
  | cons location locations ih =>
      rw [outcomes, List.all_cons, ← ih]
      rfl

end Run

end DoctypeProbe
