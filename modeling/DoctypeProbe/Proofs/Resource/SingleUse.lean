import DoctypeProbe.Resource
import DoctypeProbe.Source.Faulty

/-!
# A Stream Is Handed Out Once

A resource answers two kinds of calls. A *use* opens it: to hand out the source, to measure it or
to detect the mode of the document in it. A *question* only asks what is known of it. A resource
over a stream gives the stream to its first use and has nothing left to give after that, whatever
becomes of the use: one that fails while it reads or closes the source has had it all the same.
Later uses are refused before there is a source that they could touch. Questions are answered from
the label of the stream, so that neither uses nor what happens to the files show in their answers.

The calls of a run may each find the files in another state.

## Main results

* `Resource.serve_use_of_opened`, `Resource.serve_use_of_refused`: a use of a stream makes
  something of what opening it gives.
* `Resource.serve_spent`: what a stream that has been handed out replies.
* `Resource.stream_handed_out_once`: what becomes of a stream in a run of calls.
-/

namespace DoctypeProbe

namespace Resource

variable {σ : Type}

/-! ### Calls -/

/-- A call that opens the resource. -/
inductive Use where
  /-- Hands out a source. -/
  | openSource
  /-- Finds out the length of the content. -/
  | contentLength
  /-- Detects the mode of the document. -/
  | detect (options : Detector.Options)

/-- A call that asks about the resource. -/
inductive Question where
  /-- Is the content there? -/
  | isPresent
  /-- Can the content be read? -/
  | isReadable
  /-- Does the resource wrap a stream that is already open? -/
  | isOpen
  /-- When was the content last modified? -/
  | modification
  /-- What is at a path that starts from the resource? -/
  | createRelative (relative : Bytes)

/-- A call of a resource. -/
inductive Call where
  /-- A call that opens it. -/
  | use (use : Use)
  /-- A call that does not. -/
  | question (question : Question)

/-- What a call can answer. -/
inductive Value (σ : Type) where
  /-- A source over the content. -/
  | source (source : Opened σ)
  /-- The length of the content. -/
  | length (length : Nat)
  /-- The mode of the document. -/
  | mode (mode : Mode)
  /-- Yes or no. -/
  | flag (flag : Bool)
  /-- There is a time of last modification. -/
  | modified
  /-- Another resource. -/
  | resource (resource : Resource σ)

/-- What comes of a call. -/
structure Reply (σ : Type) where
  /-- The answer, or why there is none. -/
  outcome : Except Failure (Value σ)
  /-- What was logged. -/
  log : List Log.Record := []
  /-- The source that the call was given to work on or to hand out. -/
  obtained : Option (Opened σ) := none

/-- The reply to a question. No question is given a source. -/
def Question.reply (files : FileSystem) (r : Resource σ) : Question → Reply σ
  | isPresent => { outcome := .ok (.flag (r.isPresent files)) }
  | isReadable => { outcome := .ok (.flag (r.isReadable files)) }
  | isOpen => { outcome := .ok (.flag r.isOpen) }
  | modification => { outcome := (r.modification files).map fun _ => .modified }
  | createRelative relative => { outcome := (r.createRelative relative).map .resource }

/-- The source that a use is given: what opening the resource gives. The length of a file and of
bytes is known without opening them. -/
def Use.obtained (files : FileSystem) (u : Use) (r : Resource σ) : Option (Opened σ) :=
  match u, r with
  | contentLength, .file _ => none
  | contentLength, .bytes .. => none
  | _, r => (r.openSource files).1.toOption

variable [Alphabet] [InputSource σ]

/-- Serves a call, and answers the resource afterwards. -/
def serve (files : FileSystem) (call : Call) (r : Resource σ) : Reply σ × Resource σ :=
  match call with
  | .question q => (q.reply files r, r)
  | .use .openSource =>
    let (outcome, r') := r.openSource files
    ({ outcome := outcome.map .source, obtained := Use.openSource.obtained files r }, r')
  | .use .contentLength =>
    let (outcome, r') := r.contentLength files
    ({ outcome := outcome.map .length, obtained := Use.contentLength.obtained files r }, r')
  | .use (.detect options) =>
    let (outcome, log, r') := r.detect options files
    ({ outcome := outcome.map .mode, log, obtained := (Use.detect options).obtained files r }, r')

/-- Serves calls one after the other, each with the files as they are then. -/
def serveAll (r : Resource σ) : List (FileSystem × Call) → List (Reply σ) × Resource σ
  | [] => ([], r)
  | (files, call) :: steps =>
    let (reply, r') := serve files call r
    let (replies, r'') := serveAll r' steps
    (reply :: replies, r'')

/-! ### Uses of a stream -/

/-- What a use makes of the source that it is given. It may fail. -/
def Use.reply (u : Use) (source : Opened σ) : Reply σ :=
  match u with
  | openSource => { outcome := .ok (.source source), obtained := some source }
  | contentLength => { outcome := (lengthOf source).map .length, obtained := some source }
  | detect options =>
    let detection := Detector.detect options source
    { outcome := (detection.outcome.mapError .io).map .mode, log := detection.log,
      obtained := some source }

variable {files : FileSystem} {r r' : Resource σ} {u : Use}

/-- **A use of a stream that opens** makes something of the source, and leaves the resource as
opening it does. -/
theorem serve_use_of_opened {source : Opened σ} (hstream : r.isOpen)
    (h : r.openSource files = (.ok source, r')) :
    serve files (.use u) r = (u.reply source, r') := by
  cases r with
  | file path => cases hstream
  | bytes data label => cases hstream
  | stream stream label =>
      cases u <;> simp only [serve, contentLength, detect, Use.obtained, h] <;> rfl

/-- **A use of a stream that does not open** has no source, and fails as opening it does. -/
theorem serve_use_of_refused {e : Failure} (hstream : r.isOpen)
    (h : r.openSource files = (.error e, r')) :
    serve files (.use u) r = ({ outcome := .error e }, r') := by
  cases r with
  | file path => cases hstream
  | bytes data label => cases hstream
  | stream stream label =>
      cases u <;> simp only [serve, contentLength, detect, Use.obtained, h] <;> rfl

/-! ### Streams -/

/-- The reply of a stream to a question, which its label decides. -/
def Question.ofStream (label : Bytes) (q : Question) : Reply σ :=
  let name := (Resource.stream (none : Option σ) label).description
  match q with
  | isPresent | isReadable | isOpen => { outcome := .ok (.flag true) }
  | modification => { outcome := .error (.io (.noModificationTime name)) }
  | createRelative relative => { outcome := .error (.io (.noRelative name relative)) }

/-- The reply of a stream that has been handed out. -/
def Call.ofSpent (label : Bytes) : Call → Reply σ
  | .question q => q.ofStream label
  | .use _ => { outcome := .error .alreadyRead }

variable (label : Bytes)

/-- **A question** has the same answer before the stream has been handed out and after it. -/
theorem serve_question (files : FileSystem) (q : Question) (source : Option σ) :
    serve files (.question q) (.stream source label) =
      (q.ofStream label, .stream source label) := by
  cases q <;> rfl

/-- **A first use** is given the stream, and nothing is left. -/
theorem serve_first_use (files : FileSystem) (u : Use) (s : σ) :
    serve files (.use u) (.stream (some s) label) = (u.reply (.stream s), .stream none label) :=
  serve_use_of_opened rfl rfl

/-- **A stream that has been handed out** refuses every use, and stays as it is. -/
theorem serve_spent (files : FileSystem) (call : Call) :
    serve files call (.stream (none : Option σ) label) =
      (call.ofSpent label, .stream none label) := by
  cases call with
  | question q => exact serve_question label files q none
  | use u => exact serve_use_of_refused rfl rfl

theorem serveAll_cons {call : Call} {reply : Reply σ} {replies : List (Reply σ)}
    {r'' : Resource σ} {steps : List (FileSystem × Call)} (h : serve files call r = (reply, r'))
    (hsteps : serveAll r' steps = (replies, r'')) :
    serveAll r ((files, call) :: steps) = (reply :: replies, r'') := by
  simp only [serveAll, h, hsteps]

/-- All calls of a stream that has been handed out. -/
theorem serveAll_spent (steps : List (FileSystem × Call)) :
    serveAll (.stream (none : Option σ) label) steps =
      (steps.map fun step => step.2.ofSpent label, .stream none label) := by
  induction steps with
  | nil => rfl
  | cons step steps ih => exact serveAll_cons (serve_spent label step.1 step.2) ih

/-- **Questions** leave a stream as it is for the calls behind them. -/
theorem serveAll_questions (source : Option σ) {before : List (FileSystem × Call)}
    (h : ∀ step ∈ before, ∃ q, step.2 = .question q) (steps : List (FileSystem × Call)) :
    serveAll (.stream source label) (before ++ steps) =
      ((before.map fun step => step.2.ofSpent label) ++
        (serveAll (.stream source label) steps).1, (serveAll (.stream source label) steps).2) := by
  induction before with
  | nil => rfl
  | cons step before ih =>
      obtain ⟨files, call⟩ := step
      obtain ⟨q, rfl⟩ : ∃ q, call = .question q := h _ List.mem_cons_self
      exact serveAll_cons (serve_question label files q source)
        (ih fun step hstep => h step (List.mem_cons_of_mem _ hstep))

omit [Alphabet] [InputSource σ] in
/-- A spent stream gives no call a source. -/
theorem obtained_ofSpent (call : Call) : (call.ofSpent label : Reply σ).obtained = none := by
  rcases call with u | (_ | _ | _ | _ | relative) <;> rfl

theorem obtained_reply (u : Use) (source : Opened σ) :
    (u.reply source).obtained = some source := by
  cases u <;> rfl

omit [Alphabet] in
/-- Calls are all questions, or one of them is the first use. -/
theorem questions_or_first_use (steps : List (FileSystem × Call)) :
    (∀ step ∈ steps, ∃ q, step.2 = .question q) ∨
      ∃ before files u after, steps = before ++ (files, .use u) :: after ∧
        ∀ step ∈ before, ∃ q, step.2 = .question q := by
  induction steps with
  | nil => exact Or.inl fun step h => absurd h List.not_mem_nil
  | cons step steps ih =>
      obtain ⟨files, u | q⟩ := step
      · exact Or.inr ⟨[], files, u, steps, rfl, fun step h => absurd h List.not_mem_nil⟩
      · rcases ih with hall | ⟨before, files', u, after, rfl, hbefore⟩
        · exact Or.inl (List.forall_mem_cons.mpr ⟨⟨q, rfl⟩, hall⟩)
        · exact Or.inr ⟨(files, .question q) :: before, files', u, after, rfl,
            List.forall_mem_cons.mpr ⟨⟨q, rfl⟩, hbefore⟩⟩

/-- **A stream is handed out once**, to the first use in a run of calls, if there is one. What
this use makes of the stream is its reply, be it an answer or a failure. Every other call replies
what a stream that has been handed out replies: a question has the same answer throughout, and a
use is refused and obtains no source. -/
theorem stream_handed_out_once (s : σ) (steps : List (FileSystem × Call)) :
    let (replies, left) := serveAll (.stream (some s) label) steps
    ((∀ step ∈ steps, ∃ q, step.2 = .question q) ∧
      replies = (steps.map fun step => step.2.ofSpent label) ∧
      replies.filterMap Reply.obtained = [] ∧ left = .stream (some s) label) ∨
    ∃ before files u after, steps = before ++ (files, .use u) :: after ∧
      (∀ step ∈ before, ∃ q, step.2 = .question q) ∧
      replies = (before.map fun step => step.2.ofSpent label) ++
        u.reply (.stream s) :: after.map (fun step => step.2.ofSpent label) ∧
      replies.filterMap Reply.obtained = [.stream s] ∧ left = .stream none label := by
  have hspent : ∀ steps : List (FileSystem × Call),
      (steps.map fun step => (step.2.ofSpent label : Reply σ)).filterMap Reply.obtained = [] := by
    intro steps
    rw [List.filterMap_map, List.filterMap_eq_nil_iff]
    exact fun step _ => obtained_ofSpent label step.2
  rcases questions_or_first_use steps with hall | ⟨before, files, u, after, rfl, hbefore⟩
  · have hrun := serveAll_questions label (some s) hall []
    simp only [serveAll, List.append_nil] at hrun
    rw [hrun]
    exact Or.inl ⟨hall, rfl, hspent steps, rfl⟩
  · have hrun := serveAll_cons (serve_first_use label files u s) (serveAll_spent label after)
    rw [serveAll_questions label (some s) hbefore, hrun]
    refine Or.inr ⟨before, files, u, after, rfl, hbefore, rfl, ?_, rfl⟩
    simp only [List.filterMap_append, List.filterMap_cons, obtained_reply, hspent, List.nil_append]

/-- A stream that fails at its end has been used up by the failure. -/
example :
    let cut : IoError := .device (ascii "cut off") 5
    let s : Faulty MemorySource :=
      { inner := { rest := ascii "<a/>", description := [] }, atEnd := some cut }
    (serveAll (.stream (some s) (ascii "body"))
      [({}, .question .isPresent), ({}, .use .contentLength), ({}, .use .openSource),
        ({}, .question .isPresent)]).1.map Reply.outcome =
      [.ok (.flag true), .error (.io cut), .error .alreadyRead, .ok (.flag true)] := by
  cbv

end Resource

end DoctypeProbe
