import DoctypeProbe.FileSystem
import DoctypeProbe.Log.Format
import DoctypeProbe.Log.Stream
import DoctypeProbe.Log.Timestamp

/-!
# Logger

A logger passes on the records that are serious enough, each to exactly one sink: to the
handler if one is installed, else to the log file if one is open, else to the console. The
record is rendered in the format in force, whose compiled form is kept until the format
changes.

A log file is opened for adding to its end, and created if it does not exist. If it cannot
be opened, the console says so and stays in force.

## Main results

* `Logger.log` — the delivery of a record, if it is serious enough.
* `Logger.start` — a new level, log file and timestamp format.
-/

namespace DoctypeProbe

namespace Log

/-- When and by which thread something is logged. -/
structure Stamp where
  /-- The time. -/
  moment : Moment
  /-- The number of the thread. -/
  thread : Nat
deriving DecidableEq, Repr

/-- The sixteen hexadecimal digits of a number below `2 ^ 64`. -/
def hex16 (n : Nat) : Bytes :=
  (List.range 16).reverse.map fun i =>
    let d := n / Nat.pow 16 i % 16
    if d < 10 then Ascii.ofDigit d else UInt8.ofNat (0x57 + d)

/-- A rendered record on its way to its sink. -/
inductive Delivery where
  /-- To the handler, with the level and the message themselves. -/
  | handler (record : Record) (line : Bytes)
  /-- To the end of the log file with a given number. -/
  | file (number : Nat) (line : Bytes)
  /-- To the console. -/
  | console (line : Bytes)
deriving DecidableEq, Repr

/-- The state of a logger. -/
structure Logger where
  /-- Records below this level are not passed on. -/
  minLevel : Level := .info
  /-- The format of timestamps. -/
  timeFormat : Bytes := ascii "%Y-%m-%d %H:%M:%S"
  /-- The number of the open log file. -/
  file : Option Nat := none
  /-- Whether a handler is installed. -/
  hasHandler : Bool := false
  /-- The format of records. -/
  format : Bytes := ascii "[%T] [%L] %m"
  /-- The compiled format; empty until it is needed. -/
  compiled : List Segment := []
deriving DecidableEq, Repr

namespace Logger

/-- The timestamp format used when none is given. -/
def defaultTimeFormat : Bytes := ascii "%Y-%m-%d %H:%M:%S"

/-- What the console says about a log file that cannot be opened. -/
def notOpened (path : Bytes) : Bytes :=
  ascii "[Logger] Failed to open log file: " ++ path ++ [Ascii.lf]

/-- Sets the level and the timestamp format, and opens the log file at a path; the empty path
stands for the console. Answers what the console shows, and the file system with the log
file. -/
def start (logger : Logger) (files : FileSystem) (level : Level) (path timeFormat : Bytes) :
    Bytes × FileSystem × Logger :=
  let logger := { logger with minLevel := level, timeFormat, file := none }
  if path.isEmpty then ([], files, logger)
  else
    match files.openAppend path with
    | .ok (number, files) => ([], files, { logger with file := some number })
    | .error _ => (notOpened path, files, logger)

/-- Closes the log file; the console is in force again. -/
def shutdown (logger : Logger) : Logger := { logger with file := none }

/-- Sets the least level passed on. -/
def setLevel (logger : Logger) (level : Level) : Logger := { logger with minLevel := level }

/-- Installs a handler. -/
def installHandler (logger : Logger) : Logger := { logger with hasHandler := true }

/-- Takes the handler away. -/
def removeHandler (logger : Logger) : Logger := { logger with hasHandler := false }

/-- Sets the format of records. The empty format is ignored. -/
def setFormat (logger : Logger) (format : Bytes) : Logger :=
  if format.isEmpty then logger else { logger with format, compiled := Format.compile format }

/-- The logger with its format compiled. -/
def prepare (logger : Logger) : Logger :=
  if logger.compiled.isEmpty then { logger with compiled := Format.compile logger.format }
  else logger

/-- Everything about a record that a format can show. -/
def fields (logger : Logger) (stamp : Stamp) (record : Record) (location : Location) : Fields :=
  { timestamp := Timestamp.text logger.timeFormat stamp.moment
    thread := hex16 stamp.thread
    record
    location }

/-- Logs a record: nothing is delivered below the least level, and one line to one sink
otherwise. -/
def log (logger : Logger) (stamp : Stamp) (record : Record) (location : Location) :
    Option Delivery × Logger :=
  if record.level.code < logger.minLevel.code then (none, logger)
  else
    let logger := logger.prepare
    let line := Format.render (logger.fields stamp record location) logger.compiled
    let delivery :=
      if logger.hasHandler then .handler record line
      else
        match logger.file with
        | some number => .file number line
        | none => .console line
    (some delivery, logger)

end Logger

end Log

end DoctypeProbe
