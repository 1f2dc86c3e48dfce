import DoctypeProbe.Log.Logger
import DoctypeProbe.Proofs.FileSystem.Opening
import Mathlib.Data.List.Induction

/-!
# What Calls of a Logger Put in Force

A logger is told its level, its log file, its formats and its handler by separate calls, which come
in any order. What is in force is what the last call that has a say in it has set, whatever came in
between: this is said here about the calls alone, and shown of the logger that has received them.

The compiled form of the format is kept from one record to the next. It stays in step with the
format because it is empty until it is needed and replaced whenever the format is.

## Main results

* `Log.World.perform`: what a call does.
* `Log.InForce.step`: a call keeps the logger in step with the calls so far.
* `Log.inForce_run`: all calls do.
-/

namespace DoctypeProbe

namespace Log

/-! ### Calls -/

/-- What can be asked of a logger. -/
inductive Call where
  /-- Sets the level and the timestamp format, and opens the log file at a path. -/
  | start (level : Level) (path timeFormat : Bytes)
  /-- Closes the log file. -/
  | shutdown
  /-- Sets the level. -/
  | setLevel (level : Level)
  /-- Sets the format of records. -/
  | setFormat (format : Bytes)
  /-- Installs a handler, in place of the one that may be there. -/
  | installHandler (id : Nat)
  /-- Takes the handler away. -/
  | removeHandler
  /-- Logs a record. -/
  | log (stamp : Stamp) (record : Record) (location : Location)

/-- A logger and what it writes to. -/
structure World where
  /-- The files. -/
  files : FileSystem
  /-- The logger. -/
  logger : Logger := {}
  /-- The handler that was installed last. -/
  handler : Nat := 0
  /-- The calls of handlers, in order: each with a record and its line. -/
  handled : List (Nat × Record × Bytes) := []
  /-- What the console shows. -/
  console : Bytes := []

namespace World

/-- Brings a rendered record to its sink. -/
def deliver (w : World) : Delivery → World
  | .handler record line => { w with handled := w.handled ++ [(w.handler, record, line)] }
  | .file number line => { w with files := w.files.append number line }
  | .console line => { w with console := w.console ++ line }

theorem logger_deliver (w : World) (delivery : Delivery) :
    (w.deliver delivery).logger = w.logger := by
  cases delivery <;> rfl

theorem handler_deliver (w : World) (delivery : Delivery) :
    (w.deliver delivery).handler = w.handler := by
  cases delivery <;> rfl

/-- Does what a call asks for. -/
def perform (w : World) : Call → World
  | .start level path timeFormat =>
    let (notice, files, logger) := w.logger.start w.files level path timeFormat
    { w with files, logger, console := w.console ++ notice }
  | .shutdown => { w with logger := w.logger.shutdown }
  | .setLevel level => { w with logger := w.logger.setLevel level }
  | .setFormat format => { w with logger := w.logger.setFormat format }
  | .installHandler id => { w with logger := w.logger.installHandler, handler := id }
  | .removeHandler => { w with logger := w.logger.removeHandler }
  | .log stamp record location =>
    match w.logger.log stamp record location with
    | (none, logger) => { w with logger }
    | (some delivery, logger) => ({ w with logger }).deliver delivery

/-- What calls leave of a new logger. -/
def run (files : FileSystem) (calls : List Call) : World := calls.foldl perform { files }

theorem run_append_singleton (files : FileSystem) (calls : List Call) (call : Call) :
    run files (calls ++ [call]) = (run files calls).perform call :=
  List.foldl_concat perform _ call calls

end World

/-! ### What is in force -/

section

variable {α : Type} (says? : Call → Option α) (default : α)

/-- What the last of the calls that have a say has set; the default if none has. -/
def latest (calls : List Call) : α := ((calls.filterMap says?).getLast?).getD default

/-- A call has the last word, if it has a say. -/
theorem latest_append_singleton (calls : List Call) (call : Call) :
    latest says? default (calls ++ [call]) =
      (says? call).getD (latest says? default calls) := by
  rw [latest, latest, List.filterMap_append]
  cases h : says? call with
  | none => rw [List.filterMap_cons_none h, List.filterMap_nil, List.append_nil, Option.getD_none]
  | some a =>
      rw [List.filterMap_cons_some h, List.filterMap_nil, List.getLast?_concat]
      rfl

end

/-- The level that a call sets. -/
def Call.level? : Call → Option Level
  | .start level _ _ => some level
  | .setLevel level => some level
  | _ => none

/-- The timestamp format that a call sets. -/
def Call.timeFormat? : Call → Option Bytes
  | .start _ _ timeFormat => some timeFormat
  | _ => none

/-- The format that a call sets. The empty format is ignored. -/
def Call.format? : Call → Option Bytes
  | .setFormat format => if format.isEmpty then none else some format
  | _ => none

/-- The path of the log file that a call sets; the empty path stands for none. -/
def Call.path? : Call → Option Bytes
  | .start _ path _ => some path
  | .shutdown => some []
  | _ => none

/-- The handler that a call installs, or that there is none from now on. -/
def Call.handler? : Call → Option (Option Nat)
  | .installHandler id => some (some id)
  | .removeHandler => some none
  | _ => none

/-- The least level passed on. -/
def levelAfter (calls : List Call) : Level := latest Call.level? .info calls

/-- The timestamp format. -/
def timeFormatAfter (calls : List Call) : Bytes :=
  latest Call.timeFormat? (ascii "%Y-%m-%d %H:%M:%S") calls

/-- The format of records. -/
def formatAfter (calls : List Call) : Bytes := latest Call.format? (ascii "[%T] [%L] %m") calls

/-- The path of the log file. -/
def pathAfter (calls : List Call) : Bytes := latest Call.path? [] calls

/-- The handler, if one is installed. -/
def handlerAfter (calls : List Call) : Option Nat := latest Call.handler? none calls

theorem pathAfter_append_singleton (calls : List Call) (call : Call) :
    pathAfter (calls ++ [call]) = call.path?.getD (pathAfter calls) :=
  latest_append_singleton _ _ _ _

theorem handlerAfter_append_singleton (calls : List Call) (call : Call) :
    handlerAfter (calls ++ [call]) = call.handler?.getD (handlerAfter calls) :=
  latest_append_singleton _ _ _ _

/-- A logger has in force what calls have set, and an open log file if the path leads to one. Its
compiled format is that of the format in force, once there is one. -/
structure InForce (calls : List Call) (w : World) : Prop where
  level : w.logger.minLevel = levelAfter calls
  timeFormat : w.logger.timeFormat = timeFormatAfter calls
  format : w.logger.format = formatAfter calls
  hasHandler : w.logger.hasHandler = (handlerAfter calls).isSome
  handler : ∀ id, handlerAfter calls = some id → w.handler = id
  file : w.logger.file = w.files.fileAt? (pathAfter calls)
  compiled : w.logger.compiled = [] ∨ w.logger.compiled = Format.compile w.logger.format

theorem inForce_nil (files : FileSystem) : InForce [] { files } where
  level := rfl
  timeFormat := rfl
  format := rfl
  hasHandler := rfl
  handler := nofun
  file := rfl
  compiled := .inl rfl

/-! ### What a call changes -/

/-- **Starting** opens the log file at the path, if it can be opened, and says so on the console if
there is a path and it cannot. -/
theorem start_eq (logger : Logger) (files : FileSystem) (level : Level) (path timeFormat : Bytes) :
    logger.start files level path timeFormat =
      match files.openAppend path with
      | .ok (number, files') =>
        ([], files', { logger with minLevel := level, timeFormat, file := some number })
      | .error _ =>
        (if path.isEmpty then [] else Logger.notOpened path, files,
          { logger with minLevel := level, timeFormat, file := none }) := by
  rw [Logger.start]
  cases path with
  | nil => rfl
  | cons b path => rcases files.openAppend (b :: path) with e | ⟨number, files'⟩ <;> rfl

/-- Preparing a logger changes its compiled format only. -/
theorem prepare_eq (logger : Logger) :
    logger.prepare = { logger with compiled := logger.prepare.compiled } := by
  rw [Logger.prepare]
  split <;> rfl

/-- A prepared logger has compiled the format in force. -/
theorem compiled_prepare {logger : Logger}
    (h : logger.compiled = [] ∨ logger.compiled = Format.compile logger.format) :
    logger.prepare.compiled = Format.compile logger.format := by
  rw [Logger.prepare]
  split
  · rfl
  · rename_i hne
    exact h.resolve_left fun hnil => hne (List.isEmpty_iff.mpr hnil)

/-- The way of a line to the sink in force. -/
def Logger.deliveryOf (logger : Logger) (record : Record) (line : Bytes) : Delivery :=
  if logger.hasHandler then .handler record line
  else
    match logger.file with
    | some number => .file number line
    | none => .console line

/-- **Logging** prepares the logger and sends the line of the record on its way, unless the record
is below the level. -/
theorem perform_log (w : World) (stamp : Stamp) (record : Record) (location : Location) :
    w.perform (.log stamp record location) =
      if record.level.code < w.logger.minLevel.code then w
      else
        ({ w with logger := w.logger.prepare }).deliver (w.logger.deliveryOf record
          (Format.render (w.logger.fields stamp record location) w.logger.prepare.compiled)) := by
  rw [World.perform, Logger.log]
  split_ifs with hbelow
  · rfl
  · rw [prepare_eq]
    rfl

/-- **What a call changes of a logger**: the settings that it has a say in, the log file, if it sets
the path of one, and the compiled format. -/
theorem logger_perform (w : World) (call : Call) :
    ∃ file compiled, (w.perform call).logger =
      { minLevel := call.level?.getD w.logger.minLevel
        timeFormat := call.timeFormat?.getD w.logger.timeFormat
        format := call.format?.getD w.logger.format
        hasHandler := (call.handler?.map Option.isSome).getD w.logger.hasHandler
        file
        compiled } ∧ (call.path? = none → file = w.logger.file) := by
  cases call with
  | start level path timeFormat =>
      rw [World.perform, start_eq]
      rcases w.files.openAppend path with e | ⟨number, files⟩ <;>
      exact ⟨_, _, rfl, fun h => nomatch h⟩
  | shutdown => exact ⟨_, _, rfl, fun h => nomatch h⟩
  | setFormat format =>
      rw [World.perform, Logger.setFormat]
      simp only [Call.format?]
      split <;> exact ⟨_, _, rfl, fun _ => rfl⟩
  | log stamp record location =>
      rw [perform_log]
      split
      · exact ⟨_, _, rfl, fun _ => rfl⟩
      · rw [World.logger_deliver, prepare_eq]
        exact ⟨_, _, rfl, fun _ => rfl⟩
  | _ => exact ⟨_, _, rfl, fun _ => rfl⟩

/-- What a call changes of which handler was installed last. -/
theorem handler_perform (w : World) (call : Call) :
    (w.perform call).handler = (call.handler?.getD none).getD w.handler := by
  cases call with
  | start level path timeFormat =>
      rw [World.perform, start_eq]
      rcases w.files.openAppend path with e | ⟨number, files⟩ <;> rfl
  | log stamp record location =>
      rw [perform_log]
      split
      · rfl
      · exact World.handler_deliver _ _
  | _ => rfl

/-- Bringing a record to its sink takes no path anywhere else. -/
theorem fileAt?_deliver (w : World) (delivery : Delivery) (path : Bytes) :
    (w.deliver delivery).files.fileAt? path = w.files.fileAt? path := by
  cases delivery with
  | file number line =>
      have hsame := FileSystem.sameOutside_append w.files number line
      simp only [World.deliver, FileSystem.fileAt?, hsame.resolve]
  | handler | console => rfl

section

variable {calls : List Call} {w : World}

/-- **The open log file** is the one that the path in force leads to. -/
theorem InForce.file_perform (h : InForce calls w) (call : Call) :
    (w.perform call).logger.file =
      (w.perform call).files.fileAt? (call.path?.getD (pathAfter calls)) := by
  cases call with
  | start level path timeFormat =>
      rw [World.perform, start_eq]
      cases ho : w.files.openAppend path with
      | error e => exact (FileSystem.fileAt?_of_openAppend_error ho).symm
      | ok opened => exact (FileSystem.fileAt?_openAppend ho).symm
  | setFormat format =>
      rw [World.perform, Logger.setFormat]
      split <;> exact h.file
  | log stamp record location =>
      rw [perform_log]
      split
      · exact h.file
      · rw [World.logger_deliver, prepare_eq, fileAt?_deliver]
        exact h.file
  | shutdown => rfl
  | _ => exact h.file

/-- **The compiled format** stays in step with the format. -/
theorem InForce.compiled_perform (h : InForce calls w) (call : Call) :
    (w.perform call).logger.compiled = [] ∨
      (w.perform call).logger.compiled = Format.compile (w.perform call).logger.format := by
  cases call with
  | start level path timeFormat =>
      rw [World.perform, start_eq]
      rcases w.files.openAppend path with e | ⟨number, files⟩ <;> exact h.compiled
  | setFormat format =>
      rw [World.perform, Logger.setFormat]
      split
      · exact h.compiled
      · exact .inr rfl
  | log stamp record location =>
      rw [perform_log]
      split
      · exact h.compiled
      · rw [World.logger_deliver, prepare_eq]
        exact .inr (compiled_prepare h.compiled)
  | _ => exact h.compiled

/-- **A call** puts in force what it has a say in, and leaves the rest in force. -/
theorem InForce.step (h : InForce calls w) (call : Call) :
    InForce (calls ++ [call]) (w.perform call) := by
  obtain ⟨file, compiled, hlogger, -⟩ := logger_perform w call
  refine
    { level := ?_, timeFormat := ?_, format := ?_, hasHandler := ?_, handler := fun id hid => ?_,
      file := ?_, compiled := h.compiled_perform call }
  · rw [hlogger, levelAfter, latest_append_singleton, h.level]
    rfl
  · rw [hlogger, timeFormatAfter, latest_append_singleton, h.timeFormat]
    rfl
  · rw [hlogger, formatAfter, latest_append_singleton, h.format]
    rfl
  · rw [hlogger, handlerAfter_append_singleton]
    cases call.handler? with
    | none => exact h.hasHandler
    | some handler => rfl
  · rw [handlerAfter_append_singleton] at hid
    rw [handler_perform]
    cases hc : call.handler? with
    | none =>
        rw [hc] at hid
        exact h.handler id hid
    | some handler =>
        rw [hc] at hid
        obtain rfl : handler = some id := hid
        rfl
  · rw [h.file_perform, pathAfter_append_singleton]

end

/-- **All calls** together put in force what the last of them that have a say have set. -/
theorem inForce_run (files : FileSystem) (calls : List Call) :
    InForce calls (World.run files calls) := by
  induction calls using List.reverseRecOn with
  | nil => exact inForce_nil files
  | append_singleton calls call ih =>
      rw [World.run_append_singleton]
      exact ih.step call

/-- **The open log file** stays as it is until a call sets the path of another. -/
theorem file_run_append (files : FileSystem) (before : List Call) {after : List Call}
    (h : ∀ call ∈ after, call.path? = none) :
    (World.run files (before ++ after)).logger.file = (World.run files before).logger.file := by
  induction after using List.reverseRecOn with
  | nil => rw [List.append_nil]
  | append_singleton after call ih =>
      rw [List.forall_mem_append, List.forall_mem_singleton] at h
      obtain ⟨file, compiled, hlogger, hfile⟩ :=
        logger_perform (World.run files (before ++ after)) call
      rw [← List.append_assoc, World.run_append_singleton, hlogger]
      exact (hfile h.2).trans (ih h.1)

end Log

end DoctypeProbe
