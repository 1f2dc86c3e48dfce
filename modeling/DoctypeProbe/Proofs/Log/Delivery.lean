import DoctypeProbe.Proofs.Log.Calls

/-!
# Every Record Goes to One Sink, Once

A record that is not below the level in force is rendered once, in the format in force, and its
line goes to one sink: to the handler, if one is installed, else to the open log file, else to the
console. A record below the level changes nothing at all.

What calls give out is kept as a ledger of emissions. The ledger is made from the calls alone, with
no logger at work, except that a path is looked up in the files at hand. It is then shown that the
sinks hold what they held before and the emissions to them, in order, and nothing else. Opening a
file does not change what it holds, so this is also true of a log file that is closed and opened
again.

## Main results

* `Log.grows_perform`: what one call gives out.
* `Log.grows_run`: what a run of calls gives out.
* `Log.run_delivers_once`: both, with what is in force and what a log file is found by.
-/

namespace DoctypeProbe

namespace Log

/-! ### Emissions -/

/-- Something that is given out to one sink. -/
inductive Emission where
  /-- A record and its line, to a handler. -/
  | handled (id : Nat) (record : Record) (line : Bytes)
  /-- A line, to the end of the file with a given number. -/
  | written (number : Nat) (line : Bytes)
  /-- A text, to the console. -/
  | shown (text : Bytes)

namespace Emission

/-- The call of a handler, if the emission is one. -/
def handlerCall? : Emission → Option (Nat × Record × Bytes)
  | handled id record line => some (id, record, line)
  | _ => none

/-- What is added to the file with a given number. -/
def textIn (number : Nat) : Emission → Bytes
  | written n line => if n = number then line else []
  | _ => []

/-- What is added to what the console shows. -/
def textShown : Emission → Bytes
  | shown text => text
  | _ => []

/-- A record on its way, as it is given out where a given handler was installed last. -/
def ofDelivery (handler : Nat) : Delivery → Emission
  | .handler record line => handled handler record line
  | .file number line => written number line
  | .console line => shown line

end Emission

/-- The sinks hold what they held before and some emissions, in order. Paths that led to a file
lead to it still. -/
structure Grows (w w' : World) (emissions : List Emission) : Prop where
  handled : w'.handled = w.handled ++ emissions.filterMap Emission.handlerCall?
  content : ∀ number,
    w'.files.content number = w.files.content number ++ emissions.flatMap (Emission.textIn number)
  console : w'.console = w.console ++ emissions.flatMap Emission.textShown
  names : FileSystem.Extends w.files w'.files

section

variable {w w' w'' : World} {emissions emissions' : List Emission}

theorem Grows.refl (w : World) : Grows w w [] where
  handled := (List.append_nil _).symm
  content _ := (List.append_nil _).symm
  console := (List.append_nil _).symm
  names := .refl _

theorem Grows.trans (h : Grows w w' emissions) (h' : Grows w' w'' emissions') :
    Grows w w'' (emissions ++ emissions') where
  handled := by rw [h'.handled, h.handled, List.filterMap_append, List.append_assoc]
  content number := by
    rw [h'.content, h.content, List.flatMap_append, List.append_assoc]
  console := by rw [h'.console, h.console, List.flatMap_append, List.append_assoc]
  names := h.names.trans h'.names

/-- What a logger changes of itself is not given out. -/
theorem Grows.of_eq (hhandled : w'.handled = w.handled) (hfiles : w'.files = w.files)
    (hconsole : w'.console = w.console) : Grows w w' [] where
  handled := hhandled.trans (List.append_nil _).symm
  content _ := hfiles ▸ (List.append_nil _).symm
  console := hconsole.trans (List.append_nil _).symm
  names := hfiles ▸ .refl _

/-- **Bringing a record to its sink** gives it out once. -/
theorem grows_deliver (w : World) (delivery : Delivery) :
    Grows w (w.deliver delivery) [.ofDelivery w.handler delivery] := by
  cases delivery with
  | handler record line =>
      exact ⟨rfl, fun _ => (List.append_nil _).symm, (List.append_nil _).symm, .refl _⟩
  | file number line =>
      refine ⟨(List.append_nil _).symm, fun n => ?_, (List.append_nil _).symm,
        (FileSystem.sameOutside_append _ _ _).extends⟩
      rw [List.flatMap_singleton]
      exact FileSystem.content_append _ _ _ _
  | console line =>
      refine ⟨(List.append_nil _).symm, fun _ => (List.append_nil _).symm, ?_, .refl _⟩
      rw [List.flatMap_singleton]
      rfl

end

/-! ### What calls give out -/

/-- The line of a record that is logged behind calls: everything that a format can show, in the
formats in force. -/
def lineAfter (calls : List Call) (stamp : Stamp) (record : Record) (location : Location) : Bytes :=
  Format.render
    { timestamp := Timestamp.text (timeFormatAfter calls) stamp.moment
      thread := hex16 stamp.thread
      record
      location }
    (Format.compile (formatAfter calls))

/-- The emission of a record behind calls: to the handler, if one is installed, else to the file
that the path of the log file leads to, else to the console. -/
def emissionAfter (files : FileSystem) (calls : List Call) (record : Record) (line : Bytes) :
    Emission :=
  match handlerAfter calls with
  | some id => .handled id record line
  | none =>
    match files.fileAt? (pathAfter calls) with
    | some number => .written number line
    | none => .shown line

/-- What a call gives out behind others: a record that is not below the level, or what the console
shows if a log file cannot be opened. -/
def emitted (files : FileSystem) (calls : List Call) : Call → List Emission
  | .log stamp record location =>
    if record.level.code < (levelAfter calls).code then []
    else [emissionAfter files calls record (lineAfter calls stamp record location)]
  | .start _ path _ =>
    match files.openAppend path with
    | .ok _ => []
    | .error _ => if path.isEmpty then [] else [.shown (Logger.notOpened path)]
  | _ => []

/-- What calls give out behind others, in order. -/
def ledger (files : FileSystem) (before : List Call) : List Call → List Emission
  | [] => []
  | call :: calls =>
    emitted (World.run files before).files before call ++ ledger files (before ++ [call]) calls

section

variable {calls : List Call} {w : World}

/-- The line of a record as a prepared logger renders it. -/
theorem InForce.render (h : InForce calls w) (stamp : Stamp) (record : Record)
    (location : Location) :
    Format.render (w.logger.fields stamp record location) w.logger.prepare.compiled =
      lineAfter calls stamp record location := by
  rw [compiled_prepare h.compiled, h.format, Logger.fields, h.timeFormat]
  rfl

/-- The sink of a record is the one in force. -/
theorem InForce.ofDelivery (h : InForce calls w) (record : Record) (line : Bytes) :
    Emission.ofDelivery w.handler (w.logger.deliveryOf record line) =
      emissionAfter w.files calls record line := by
  rw [Logger.deliveryOf, emissionAfter, h.hasHandler, h.file]
  cases hh : handlerAfter calls with
  | some id => rw [← h.handler id hh]; rfl
  | none => cases w.files.fileAt? (pathAfter calls) <;> rfl

/-- **A record that is not below the level** is given out once. -/
theorem InForce.grows_log (h : InForce calls w) (stamp : Stamp) {record : Record}
    (location : Location) (hlevel : ¬record.level.code < w.logger.minLevel.code) :
    Grows w (w.perform (.log stamp record location))
      [emissionAfter w.files calls record (lineAfter calls stamp record location)] := by
  rw [perform_log, if_neg hlevel, h.render, ← h.ofDelivery]
  have hprepared : Grows w { w with logger := w.logger.prepare } [] := .of_eq rfl rfl rfl
  exact hprepared.trans (grows_deliver { w with logger := w.logger.prepare } _)

/-- **Starting** gives nothing out, unless there is a log file that cannot be opened. -/
theorem grows_start (w : World) (level : Level) (path timeFormat : Bytes) :
    Grows w (w.perform (.start level path timeFormat))
      (emitted w.files calls (.start level path timeFormat)) := by
  rw [World.perform, start_eq, emitted]
  cases ho : w.files.openAppend path with
  | ok opened =>
      exact ⟨(List.append_nil _).symm,
        fun n => (FileSystem.content_openAppend ho n).trans (List.append_nil _).symm,
        rfl, FileSystem.extends_openAppend ho⟩
  | error e =>
      cases path with
      | nil =>
          exact ⟨(List.append_nil _).symm, fun _ => (List.append_nil _).symm, rfl, .refl _⟩
      | cons b path =>
          refine ⟨(List.append_nil _).symm, fun _ => (List.append_nil _).symm, ?_, .refl _⟩
          exact congrArg (w.console ++ ·) (List.append_nil _).symm

/-- **What one call gives out.** -/
theorem grows_perform (h : InForce calls w) (call : Call) :
    Grows w (w.perform call) (emitted w.files calls call) := by
  cases call with
  | start level path timeFormat => exact grows_start w level path timeFormat
  | log stamp record location =>
      rw [emitted, ← h.level]
      split
      · rw [perform_log, if_pos ‹_›]
        exact .refl w
      · exact h.grows_log stamp location ‹_›
  | _ => exact .of_eq rfl rfl rfl

end

/-- **What a run of calls gives out.** Induction on the calls: each of them gives out what is due
with the calls before it. -/
theorem grows_run (files : FileSystem) (before after : List Call) :
    Grows (World.run files before) (World.run files (before ++ after))
      (ledger files before after) := by
  induction after generalizing before with
  | nil =>
      rw [List.append_nil]
      exact .refl _
  | cons call after ih =>
      have hcall := grows_perform (inForce_run files before) call
      have hafter := ih (before ++ [call])
      rw [List.append_assoc, List.singleton_append] at hafter
      rw [World.run_append_singleton] at hafter
      exact hcall.trans hafter

/-! ### Log files that are opened again, or not at all -/

/-- **A log file that is opened again** behind any calls is the one that its path led to before. -/
theorem file_start_of_fileAt? {files : FileSystem} {before : List Call} {path : Bytes}
    {number : Nat} (h : (World.run files before).files.fileAt? path = some number)
    (after : List Call) (level : Level) (timeFormat : Bytes) :
    ((World.run files (before ++ after)).perform (.start level path timeFormat)).logger.file =
      some number := by
  have hlater := (grows_run files before after).names.fileAt? h
  rw [World.perform, start_eq, FileSystem.openAppend_of_fileAt? hlater]

/-- **A log file that cannot be opened** leaves the console in force, until a call sets the path of
another log file. -/
theorem emissionAfter_of_not_opened {files : FileSystem} {before after : List Call} {path : Bytes}
    {e : Errno} (h : (World.run files before).files.openAppend path = .error e)
    (hafter : ∀ call ∈ after, call.path? = none) {level : Level} {timeFormat : Bytes} :
    let calls := before ++ .start level path timeFormat :: after
    handlerAfter calls = none → ∀ record line,
      emissionAfter (World.run files calls).files calls record line = .shown line := by
  intro calls hhandler record line
  have hcalls : calls = before ++ [.start level path timeFormat] ++ after := by
    rw [List.append_assoc, List.singleton_append]
  have hclosed : (World.run files calls).logger.file = none := by
    rw [hcalls, file_run_append _ _ hafter, World.run_append_singleton, World.perform, start_eq, h]
  rw [emissionAfter, hhandler, ← (inForce_run files calls).file, hclosed]

/-- **Every record is delivered once.** Take a new logger that has received some calls, `before`,
and then others, `after`. Behind `before`,

* what is in force is what the last of the calls that have a say in it have set, and the compiled
  format, once there is one, is that of the format in force;
* a record below the level changes nothing; any other is given out once, to the sink in force, as a
  line in the formats in force;
* throughout `after`, a handler is called, a file grows and the console shows something just as
  the ledger has it, in its order;
* a path that leads to a file leads to it behind `after`, so a log file that is opened there again
  is the same one;
* a log file that cannot be opened leaves the console in force, until there is another path. -/
theorem run_delivers_once (files : FileSystem) (before after : List Call) :
    let w := World.run files before
    let w' := World.run files (before ++ after)
    InForce before w ∧
    (∀ stamp record location,
      (record.level.code < w.logger.minLevel.code →
        w.perform (.log stamp record location) = w) ∧
      (¬record.level.code < w.logger.minLevel.code →
        Grows w (w.perform (.log stamp record location))
          [emissionAfter w.files before record (lineAfter before stamp record location)])) ∧
    Grows w w' (ledger files before after) ∧
    (∀ path number, w.files.fileAt? path = some number → ∀ level timeFormat,
      (w'.perform (.start level path timeFormat)).logger.file = some number) ∧
    (∀ level path timeFormat e, w.files.openAppend path = .error e →
      (∀ call ∈ after, call.path? = none) →
      let calls := before ++ .start level path timeFormat :: after
      handlerAfter calls = none → ∀ record line,
        emissionAfter (World.run files calls).files calls record line = .shown line) := by
  intro w w'
  have hforce : InForce before w := inForce_run files before
  refine ⟨hforce, fun stamp record location => ⟨fun hbelow => ?_, hforce.grows_log stamp location⟩,
    grows_run files before after, fun path number h => file_start_of_fileAt? h after,
    fun level path timeFormat e h hafter => emissionAfter_of_not_opened h hafter⟩
  rw [perform_log, if_pos hbelow]

/-- A file system with one log file. -/
def sampleFiles : FileSystem where
  entries := [([ascii "run.log"], .file 0)]
  contents := [(0, ascii "old\n")]

/-- Some moment, and some thread. -/
def sampleStamp : Stamp where
  moment := .ofUnixMilliseconds 0
  thread := 1

/-- Calls that open the log file and write to it. -/
def sampleCalls : List Call :=
  [.start .debug (ascii "run.log") [], .setFormat (ascii "%L %m"),
    .log sampleStamp ⟨.debug, ascii "one"⟩ {}, .log sampleStamp ⟨.trace, ascii "two"⟩ {}]

/-- Calls that send a record past the log file. -/
def sampleDetour : List Call :=
  [.installHandler 7, .log sampleStamp ⟨.error, ascii "three"⟩ {}, .removeHandler,
    .log sampleStamp ⟨.error, ascii "four"⟩ {}]

/-- The log file of the sample holds two records more, and it is found again; a log file in a
directory that does not exist leaves the console in force. -/
theorem run_sampleCalls :
    (World.run sampleFiles sampleCalls).files.fileAt? (ascii "run.log") = some 0 ∧
    (World.run sampleFiles sampleCalls).files.openAppend (ascii "none/run.log") =
      .error .noEntry ∧
    (∀ call ∈ sampleDetour, call.path? = none) ∧
    (World.run sampleFiles (sampleCalls ++ sampleDetour)).files.content 0 =
      ascii "old\nDEBUG one\nERROR four\n" ∧
    ((World.run sampleFiles (sampleCalls ++ sampleDetour)).perform
      (.start .info (ascii "run.log") [])).logger.file = some 0 ∧
    (∀ record line,
      let calls := sampleCalls ++ .start .info (ascii "none/run.log") [] :: sampleDetour
      emissionAfter (World.run sampleFiles calls).files calls record line = .shown line) := by
  obtain ⟨-, -, hgrows, hagain, hclosed⟩ := run_delivers_once sampleFiles sampleCalls sampleDetour
  have hfile : (World.run sampleFiles sampleCalls).files.fileAt? (ascii "run.log") = some 0 := by
    decide +kernel
  have hmissing : (World.run sampleFiles sampleCalls).files.openAppend (ascii "none/run.log") =
      .error .noEntry := by
    decide +kernel
  have hpathless : ∀ call ∈ sampleDetour, call.path? = none := by
    simp [sampleDetour, Call.path?]
  have hcontent := (hgrows.content 0).trans
    (by decide +kernel : _ = ascii "old\nDEBUG one\nERROR four\n")
  exact ⟨hfile, hmissing, hpathless, hcontent, hagain _ _ hfile _ _,
    hclosed _ _ _ _ hmissing hpathless rfl⟩

end Log

end DoctypeProbe
