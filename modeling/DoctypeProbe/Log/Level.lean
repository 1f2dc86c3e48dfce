import DoctypeProbe.Bytes

/-!
# Log Levels

Log levels are ordered by a number. Six of them have names; a number outside these six is a
level as well, without a name of its own, and is compared like the others.
-/

namespace DoctypeProbe

namespace Log

/-- How serious a record is: the larger the number, the more serious. -/
structure Level where
  /-- The number that levels are compared by. -/
  code : Int
deriving DecidableEq, Repr

namespace Level

/-- Single steps of the work. -/
def trace : Level := ⟨0⟩
/-- Decisions on the way. -/
def debug : Level := ⟨1⟩
/-- Normal operation. -/
def info : Level := ⟨2⟩
/-- Something unexpected that was dealt with. -/
def warning : Level := ⟨3⟩
/-- A failed operation. -/
def error : Level := ⟨4⟩
/-- A failure of the whole program. -/
def fatal : Level := ⟨5⟩

/-- The name of a level. -/
def name (level : Level) : Bytes :=
  if level = trace then ascii "TRACE"
  else if level = debug then ascii "DEBUG"
  else if level = info then ascii "INFO"
  else if level = warning then ascii "WARN"
  else if level = error then ascii "ERROR"
  else if level = fatal then ascii "FATAL"
  else ascii "UNKNOWN"

/-- The names that levels are read from, in small letters. -/
def spellings : List (Bytes × Level) :=
  [(ascii "trace", trace), (ascii "debug", debug), (ascii "info", info),
    (ascii "warn", warning), (ascii "warning", warning), (ascii "error", error),
    (ascii "fatal", fatal)]

/-- Finds a level by its name, ignoring case. -/
def parse? (text : Bytes) : Option Level := spellings.lookup text.lower

end Level

/-- What is logged: a message and how serious it is. -/
structure Record where
  /-- How serious the message is. -/
  level : Level
  /-- The message. -/
  text : Bytes
deriving DecidableEq, Repr

end Log

end DoctypeProbe
