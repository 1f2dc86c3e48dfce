import DoctypeProbe.Log.Logger

/-!
# Sessions

A session is what the program runs in: a file system, a logger, standard input, and what has
been written so far. Results go to standard output, messages to standard error, and so do the
records that the logger shows on the console; the session keeps them apart and remembers
their order.

## Main results

* `Session.log` — passes a record to the logger and delivers it.
* `Session.textOn_write` — writing adds to the end of one channel.
* `Session.results`, `Session.errors` — what has been written to the two standard streams.
-/

namespace DoctypeProbe

/-- Where a text is written to. -/
inductive Channel where
  /-- Standard output. -/
  | results
  /-- Standard error, by the program itself. -/
  | messages
  /-- Standard error, by the logger. -/
  | console
deriving DecidableEq, Repr

/-- What the program runs in. -/
structure Session where
  /-- The files. -/
  files : FileSystem
  /-- The rest of standard input; `none` if it is closed. -/
  input : Option Bytes
  /-- The time of the run and the thread it runs in. -/
  stamp : Log.Stamp
  /-- The logger. -/
  logger : Log.Logger := {}
  /-- What has been written, in order. -/
  written : List (Channel × Bytes) := []
deriving DecidableEq, Repr

namespace Session

/-- Writes a text. -/
def write (s : Session) (channel : Channel) (text : Bytes) : Session :=
  { s with written := s.written ++ [(channel, text)] }

/-- Brings a rendered record to its sink. The sink of a handler is not part of a session. -/
def deliver (s : Session) : Log.Delivery → Session
  | .handler .. => s
  | .file number line => { s with files := s.files.append number line }
  | .console line => s.write .console line

/-- Logs a record. -/
def log (s : Session) (record : Log.Record) : Session :=
  match s.logger.log s.stamp record {} with
  | (none, logger) => { s with logger }
  | (some delivery, logger) => ({ s with logger }).deliver delivery

/-- Logs records in order. -/
def logAll (s : Session) (records : List Log.Record) : Session := records.foldl log s

/-- The texts written to a choice of channels, in order. -/
def textOn (s : Session) (p : Channel → Bool) : Bytes :=
  (s.written.filter fun (channel, _) => p channel).flatMap (·.2)

/-- Writing adds a text at the end of what its channel shows. -/
theorem textOn_write (s : Session) (channel : Channel) (text : Bytes) (p : Channel → Bool) :
    (s.write channel text).textOn p = s.textOn p ++ if p channel then text else [] := by
  unfold textOn write
  cases h : p channel <;> simp [List.filter_append, h]

/-- What has been written to standard output. -/
def results (s : Session) : Bytes := s.textOn (· == .results)

/-- The messages written to standard error. -/
def messages (s : Session) : Bytes := s.textOn (· == .messages)

/-- What the logger has written to standard error. -/
def console (s : Session) : Bytes := s.textOn (· == .console)

/-- What has been written to standard error. -/
def errors (s : Session) : Bytes := s.textOn (· != .results)

end Session

end DoctypeProbe
