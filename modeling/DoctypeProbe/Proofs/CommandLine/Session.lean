import DoctypeProbe.CommandLine.Session
import DoctypeProbe.Proofs.FileSystem

/-!
# What Logging Leaves Alone

The program writes results and messages, and its logger writes to a sink of its own: the console,
or a log file. What the program has written is seen apart from the console (`Session.printed`), and
logging adds nothing to it. Logging does not touch standard input either, nor any file but the log
file, and it does not change which file that is.

## Main results

* `Session.logged_logAll`: what logging changes.
* `Session.results_eq`, `Session.messages_eq`: the two streams of the program, from what it has
  written.
-/

namespace DoctypeProbe

namespace Session

/-! ### What the program has written -/

/-- What the program itself has written, in order: everything but what the logger shows. -/
def printed (s : Session) : List (Channel × Bytes) :=
  s.written.filter fun (channel, _) => channel != .console

/-- The texts for one channel among some that are written. -/
def textsFor (channel : Channel) (pieces : List (Channel × Bytes)) : Bytes :=
  (pieces.filter fun (c, _) => c == channel).flatMap (·.2)

theorem textsFor_append (channel : Channel) (pieces pieces' : List (Channel × Bytes)) :
    textsFor channel (pieces ++ pieces') =
      textsFor channel pieces ++ textsFor channel pieces' := by
  rw [textsFor, List.filter_append, List.flatMap_append]
  rfl

/-- The texts for a channel are those of the pieces one by one. -/
theorem textsFor_map {α : Type} (channel : Channel) (piece : α → Channel × Bytes) (l : List α) :
    textsFor channel (l.map piece) = l.flatMap fun a => textsFor channel [piece a] := by
  induction l with
  | nil => rfl
  | cons a l ih => rw [List.flatMap_cons, ← ih, ← textsFor_append, List.map_cons]; rfl

theorem textOn_eq_textsFor (s : Session) {channel : Channel} (h : channel ≠ .console) :
    s.textOn (· == channel) = textsFor channel s.printed := by
  rw [textOn, textsFor, printed, List.filter_filter]
  congr 2
  funext ⟨c, text⟩
  cases c <;> cases channel <;> simp_all

/-- **Standard output** shows the results that the program has written. -/
theorem results_eq (s : Session) : s.results = textsFor .results s.printed :=
  s.textOn_eq_textsFor nofun

/-- **The messages** are those that the program has written. -/
theorem messages_eq (s : Session) : s.messages = textsFor .messages s.printed :=
  s.textOn_eq_textsFor nofun

theorem printed_write {channel : Channel} (h : channel ≠ .console) (s : Session) (text : Bytes) :
    (s.write channel text).printed = s.printed ++ [(channel, text)] := by
  cases channel with
  | console => exact absurd rfl h
  | results | messages => exact List.filter_append _ _

theorem printed_write_console (s : Session) (text : Bytes) :
    (s.write .console text).printed = s.printed := by
  rw [printed, write, List.filter_append]
  exact List.append_nil _

/-! ### What has been logged -/

/-- The same documents can be read in a session as in an earlier one: the log file is the same one,
and only the log file has been written to. -/
structure SameDocuments (s s' : Session) : Prop where
  /-- The log file is the same one. -/
  logFile : s'.logger.file = s.logger.file
  /-- Only the log file has been written to. -/
  files : FileSystem.SameOutside s.logger.file s.files s'.files

/-- A session has become another one by logging only. -/
structure Logged (s s' : Session) : Prop extends SameDocuments s s' where
  /-- The program itself has written nothing. -/
  printed : s'.printed = s.printed
  /-- Standard input stands where it stood. -/
  input : s'.input = s.input

variable {s s' s'' : Session}

theorem SameDocuments.refl (s : Session) : SameDocuments s s := ⟨rfl, .refl _ _⟩

theorem SameDocuments.trans (h : SameDocuments s s') (h' : SameDocuments s' s'') :
    SameDocuments s s'' where
  logFile := h'.logFile.trans h.logFile
  files := h.files.trans (h.logFile ▸ h'.files)

theorem sameDocuments_write (s : Session) (channel : Channel) (text : Bytes) :
    SameDocuments s (s.write channel text) := ⟨rfl, .refl _ _⟩

theorem Logged.refl (s : Session) : Logged s s := ⟨.refl s, rfl, rfl⟩

theorem Logged.trans (h : Logged s s') (h' : Logged s' s'') : Logged s s'' where
  toSameDocuments := h.toSameDocuments.trans h'.toSameDocuments
  printed := h'.printed.trans h.printed
  input := h'.input.trans h.input

/-- A record that is delivered goes to the log file that is open, if it goes to a file. -/
theorem logged_deliver {delivery : Log.Delivery}
    (h : ∀ number line, delivery = .file number line → s.logger.file = some number) :
    Logged s (s.deliver delivery) := by
  cases delivery with
  | handler record line => exact .refl s
  | console line =>
      exact ⟨s.sameDocuments_write _ line, s.printed_write_console line, rfl⟩
  | file number line =>
      refine ⟨⟨rfl, ?_⟩, rfl, rfl⟩
      rw [h number line rfl]
      exact FileSystem.sameOutside_append s.files number line

/-- A logger prepares its format for a record, and delivers it to the file that is open or
elsewhere. -/
theorem logger_log_cases (logger : Log.Logger) (stamp : Log.Stamp) (record : Log.Record)
    (location : Log.Location) :
    (logger.log stamp record location).2.file = logger.file ∧
      ∀ number line, (logger.log stamp record location).1 = some (.file number line) →
        logger.file = some number := by
  have hfile : logger.prepare.file = logger.file := by
    rw [Log.Logger.prepare]
    split <;> rfl
  rw [Log.Logger.log]
  split
  · exact ⟨rfl, nofun⟩
  · refine ⟨hfile, fun number line h => ?_⟩
    rw [Option.some.injEq] at h
    split at h
    · cases h
    · rw [← hfile]
      split at h
      · cases h
        assumption
      · cases h

/-- **Logging a record** changes the logger and its sink only. -/
theorem logged_log (s : Session) (record : Log.Record) : Logged s (s.log record) := by
  obtain ⟨hfile, hdelivery⟩ := logger_log_cases s.logger s.stamp record {}
  rw [log]
  split
  · rename_i logger hlog
    rw [hlog] at hfile
    exact ⟨⟨hfile, .refl _ _⟩, rfl, rfl⟩
  · rename_i delivery logger hlog
    rw [hlog] at hfile hdelivery
    have hprepared : Logged s { s with logger } := ⟨⟨hfile, .refl _ _⟩, rfl, rfl⟩
    refine hprepared.trans (logged_deliver fun number line h => ?_)
    exact hfile.trans (hdelivery number line (congrArg some h))

/-- **Logging** changes the logger and its sink only. -/
theorem logged_logAll (s : Session) (records : List Log.Record) : Logged s (s.logAll records) := by
  induction records generalizing s with
  | nil => exact .refl s
  | cons record records ih => exact (s.logged_log record).trans (ih (s.log record))

end Session

end DoctypeProbe
