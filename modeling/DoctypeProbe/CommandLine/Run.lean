import DoctypeProbe.CommandLine.Arguments
import DoctypeProbe.CommandLine.Help
import DoctypeProbe.CommandLine.Session
import DoctypeProbe.Loader

/-!
# Running the Program

A run takes the arguments, the settings file and the options into account, in this order, and
then looks at one location after the other. Whatever is wrong before the first location ends
the run with one message. From there on each location has one record: a line with its mode on
standard output, or a message that says why it has none; a failure does not keep the run from
the locations after it.

The mode of a resource is remembered under the description of the resource, so a resource
named twice is opened once. Standard input is never remembered: each time it is named, it is
read from where the last use has left it, which is a number of whole blocks further on.

## Main results

* `Run.examine` — the mode of the document at one location.
* `Run.visitAll` — how locations are looked at, one after the other.
* `Run.runWith` — a run up to its locations, and with any way of looking at them.
* `Run.run` — a whole run: its status, and the session it leaves.
-/

namespace DoctypeProbe

/-- How a run ends. -/
inductive Status where
  /-- Every location has a mode. -/
  | ok
  /-- Some location has none. -/
  | detectionFailed
  /-- The run was refused. -/
  | usage
deriving DecidableEq, Repr

/-- The exit status of the program. -/
def Status.code : Status → Nat
  | ok => 0
  | detectionFailed => 1
  | usage => 2

namespace Run

/-- Stands for standard input among the locations. -/
def inputLocation : Bytes := ascii "-"

/-- The name of standard input in messages. -/
def inputName : Bytes := ascii "<stdin>"

/-- How the locations of a run are looked at. -/
structure Plan where
  /-- How documents are read. -/
  options : Detector.Options
  /-- How locations are resolved; there are no streams among the resources. -/
  loader : Loader Empty
  /-- Whether modes are shown by number. -/
  numeric : Bool

/-- The state of a run between two locations. -/
structure State where
  /-- The session. -/
  session : Session
  /-- The modes found so far, by the descriptions of their resources. -/
  known : Keyed Mode := []

/-- There are no sources of the empty type. -/
instance : InputSource Empty where
  read s := nomatch s
  close s := nomatch s
  isOpen s := nomatch s
  description s := nomatch s
  remaining s := nomatch s
  read_bound {s} := nomatch s

/-! ### One location -/

/-- Why closed standard input cannot be read. A log file opened meanwhile has taken its place
and can only be written to. -/
def closedInput (logger : Log.Logger) : IoError :=
  match logger.file with
  | none => .noStandardInput .badDescriptor
  | some _ => .readFailed inputName .badDescriptor

/-- The mode of the document that standard input goes on with. -/
def examineInput (options : Detector.Options) (s : Session) : Except Failure Mode × Session :=
  match s.input with
  | none => (.error (.io (closedInput s.logger)), s)
  | some rest =>
    let source : MemorySource := { rest, description := inputName }
    let detection := Detector.detect options source
    (detection.outcome.mapError .io,
      ({ s with input := some detection.source.rest }).logAll detection.log)

/-- The mode of the document in a resource, which is remembered. -/
def examineResource (options : Detector.Options) (resource : Resource Empty) (s : State) :
    Except Failure Mode × State :=
  match s.known.get? resource.description with
  | some mode => (.ok mode, s)
  | none =>
    let (outcome, log, _) := resource.detect options s.session.files
    let s := { s with session := s.session.logAll log }
    match outcome with
    | .ok mode => (.ok mode, { s with known := s.known.insert resource.description mode })
    | .error e => (.error e, s)

/-- The mode of the document at a location. -/
def examine (plan : Plan) (location : Bytes) (s : State) : Except Failure Mode × State :=
  if location = inputLocation then
    let (outcome, session) := examineInput plan.options s.session
    (outcome, { s with session })
  else
    let (found, log) := plan.loader.locate s.session.files location
    let s := { s with session := s.session.logAll log }
    match found with
    | .ok resource => examineResource plan.options resource s
    | .error e => (.error e, s)

/-! ### Records -/

/-- The text that shows a mode. -/
def modeText (numeric : Bool) (mode : Mode) : Bytes :=
  if numeric then Bytes.decimal mode.code else mode.name

/-- The line of a location that has a mode. -/
def resultLine (numeric : Bool) (location : Bytes) (mode : Mode) : Bytes :=
  location ++ Ascii.tab :: modeText numeric mode ++ [Ascii.lf]

/-- A message of the program, as a line. -/
def messageLine (text : Bytes) : Bytes := ascii "xmlmode: " ++ text ++ [Ascii.lf]

/-- Why a location has no mode. -/
def failureText (location : Bytes) (e : Failure) : Bytes :=
  location ++ ascii ": " ++ e.message.untilNul

/-- Writes the record of a location, and logs it. -/
def record (numeric : Bool) (location : Bytes) (outcome : Except Failure Mode) (s : Session) :
    Session :=
  match outcome with
  | .ok mode =>
    (s.write .results (resultLine numeric location mode)).log
      ⟨.debug, location ++ ascii ": " ++ mode.name⟩
  | .error e =>
    (s.log ⟨.error, failureText location e⟩).write .messages
      (messageLine (failureText location e))

/-- Looks at one location: whether it has a mode, and the state after its record. -/
def visit (plan : Plan) (location : Bytes) (s : State) : Bool × State :=
  let (outcome, s) := examine plan location s
  (outcome.isOk, { s with session := record plan.numeric location outcome s.session })

/-- Looks at locations in order: whether all of them have a mode, and the state after the last
record. -/
def visitAll (plan : Plan) : List Bytes → State → Bool × State
  | [], s => (true, s)
  | location :: locations, s =>
    let (ok, s) := visit plan location s
    let (allOk, s) := visitAll plan locations s
    (ok && allOk, s)

/-! ### Whole runs -/

/-- Ends a run with a message. -/
def refuse (s : Session) (text : Bytes) : Status × Session :=
  (.usage, s.write .messages (messageLine text.untilNul))

/-- The message of a run without locations. -/
def noLocations : Bytes := ascii "no input locations given (try --help)"

/-- A way of looking at the locations of a plan: whether all of them have a mode, and the state
after the last record. -/
abbrev Looking := Plan → List Bytes → State → Bool × State

/-- Looks at the locations of a plan, and ends the run. -/
def concludeWith (look : Looking) (plan : Plan) (locations : List Bytes) (s : Session) :
    Status × Session :=
  let (allOk, state) := look plan locations { session := s }
  (if allOk then .ok else .detectionFailed, state.session)

/-- Makes a plan for the locations of a run and looks at them, once logging has been started. -/
def detectAll (look : Looking) (invocation : Invocation) (settings : Settings) (s : Session) :
    Status × Session :=
  if invocation.locations.isEmpty then refuse s noLocations
  else
    match settings.detectorOptions with
    | .error e => refuse s e.message
    | .ok options =>
      match settings.makeLoader s.files with
      | .error text => refuse s text
      | .ok loader =>
        concludeWith look { options, loader, numeric := invocation.numeric }
          invocation.locations s

/-- Runs the program on its arguments, with a way of looking at locations. -/
def runWith (look : Looking) (args : List Bytes) (s : Session) : Status × Session :=
  match Arguments.parse args with
  | (.error e, _) => refuse s e.message
  | (.ok (), invocation) =>
    if invocation.help then (.ok, s.write .results helpText)
    else
      let (outcome, log, settings) := invocation.settings.fillFromFile s.files
      let s := s.logAll log
      match outcome with
      | .error e => refuse s e.message
      | .ok () =>
        match settings.startLogging s.files s.logger with
        | .error e => refuse s e.message
        | .ok (notice, files, logger) =>
          detectAll look invocation settings (({ s with files, logger }).write .console notice)

/-- Runs the program on its arguments. -/
def run (args : List Bytes) (s : Session) : Status × Session := runWith visitAll args s

end Run

end DoctypeProbe
