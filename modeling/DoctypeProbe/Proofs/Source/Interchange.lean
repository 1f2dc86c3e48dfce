import DoctypeProbe.Proofs.Source.Delivery

/-!
# Interchangeable Sources

Bytes in memory, a stream and a descriptor keep what is left of their bytes in different ways: as
the rest, as the rest with marks on it, and as a number and an offset. None of this shows in what
they answer. Whichever calls are made, the answer to a call depends on the bytes and on the calls
before it alone, and in the same way for all three.

What a source is to callers is a state of two kinds, open with some bytes left or closed
(`Option Bytes`). `Serves` says for a kind of source that each of its operations does what it
does to that state; runs of calls follow from this by induction.

## Main results

* `InputSource.Serves.serve`: a call is answered as the state says, and leads to the next one.
* `InputSource.Serves.answers`: the answers to all calls of a run.
* `InputSource.sources_alike`: sources in memory, over a stream and over a file.
-/

namespace DoctypeProbe

namespace InputSource

/-! ### Calls -/

/-- A call of a source. -/
inductive Call where
  /-- Delivers up to the given number of bytes. -/
  | read (n : Nat)
  /-- Releases the source. -/
  | close
  /-- Has the source not been released? -/
  | isOpen
deriving DecidableEq

/-- What a call answers. -/
inductive Reply where
  /-- The answer to a read. -/
  | bytes (outcome : Except IoError Bytes)
  /-- The answer to a call that closes the source. -/
  | closed (outcome : Except IoError Unit)
  /-- Yes or no. -/
  | flag (flag : Bool)

/-- The bytes that a reply delivers. -/
def Reply.delivered : Reply → Bytes
  | .bytes (.ok bs) => bs
  | _ => []

section

variable {σ : Type} [InputSource σ]

/-- Serves a call, and answers the source afterwards. -/
def serve (call : Call) (s : σ) : Reply × σ :=
  match call with
  | .read n => (InputSource.read s n).map .bytes id
  | .close => (InputSource.close s).map .closed id
  | .isOpen => (.flag (InputSource.isOpen s), s)

/-- Serves calls one after the other. -/
def serveAll (s : σ) : List Call → List Reply × σ
  | [] => ([], s)
  | call :: calls =>
    let (reply, s') := serve call s
    let (replies, s'') := serveAll s' calls
    (reply :: replies, s'')

end

/-! ### What calls are answered -/

/-- The number of bytes that calls ask for. -/
def asked : List Call → Nat
  | [] => 0
  | .read n :: calls => n + asked calls
  | _ :: calls => asked calls

/-- What some calls leave of bytes, whatever their answers were; `none` once one of them has
closed the source. -/
def leftAfter (d : Bytes) (before : List Call) : Option Bytes :=
  if .close ∈ before then none else some (d.drop (asked before))

/-- The reply of a source with a given name that has some bytes left, or has been closed. A read
answers the next bytes, as many as it asks for or as there are. -/
def Call.reply (name : Bytes) (left : Option Bytes) : Call → Reply
  | .read n =>
    match left with
    | some rest => .bytes (.ok (rest.take n))
    | none => .bytes (.error (.readClosed name))
  | .close => .closed (.ok ())
  | .isOpen => .flag left.isSome

/-- A source answers calls as one with the given name over `d`. -/
structure Answers {σ : Type} [InputSource σ] (s : σ) (name d : Bytes) : Prop where
  /-- A reply depends on the calls before it. -/
  replies : ∀ calls, (serveAll s calls).1 =
    calls.mapIdx fun i call => call.reply name (leftAfter d (calls.take i))
  /-- The bytes delivered are those in front, as many as were asked for before the source was
  closed or as there are: none is lost, and none comes twice. -/
  delivered : ∀ calls, (serveAll s calls).1.flatMap Reply.delivered =
    d.take (asked (calls.takeWhile (· ≠ .close)))
  /-- A source that has been closed is left as it is. -/
  unchanged : ∀ calls call, .close ∈ calls →
    (serve call (serveAll s calls).2).2 = (serveAll s calls).2

/-! ### One call after the other -/

/-- What a call leaves. -/
def Call.leaves (left : Option Bytes) : Call → Option Bytes
  | .read n => left.map (List.drop n)
  | .close => none
  | .isOpen => left

theorem foldl_leaves_none (calls : List Call) :
    calls.foldl (fun left call => call.leaves left) none = none := by
  induction calls with
  | nil => rfl
  | cons call calls ih => cases call <;> exact ih

/-- What calls leave one after the other is what they leave together. -/
theorem foldl_leaves (d : Bytes) (calls : List Call) :
    calls.foldl (fun left call => call.leaves left) (some d) = leftAfter d calls := by
  induction calls generalizing d with
  | nil => rfl
  | cons call calls ih =>
      cases call with
      | read n =>
          rw [List.foldl_cons, Call.leaves, Option.map_some, ih]
          simp [leftAfter, asked, List.drop_drop]
      | close =>
          rw [List.foldl_cons, Call.leaves, foldl_leaves_none]
          simp [leftAfter]
      | isOpen =>
          rw [List.foldl_cons, Call.leaves, ih]
          simp [leftAfter, asked]

/-- The replies to calls one after the other. -/
def repliesFrom (name : Bytes) (left : Option Bytes) : List Call → List Reply
  | [] => []
  | call :: calls => call.reply name left :: repliesFrom name (call.leaves left) calls

theorem getElem?_repliesFrom (name : Bytes) (left : Option Bytes) (calls : List Call) (i : Nat) :
    (repliesFrom name left calls)[i]? = calls[i]?.map fun call =>
      call.reply name ((calls.take i).foldl (fun left call => call.leaves left) left) := by
  induction calls generalizing left i with
  | nil => rfl
  | cons call calls ih =>
      cases i with
      | zero => rfl
      | succ i =>
          rw [repliesFrom, List.getElem?_cons_succ, ih]
          rfl

/-- **The reply to a call** depends on the calls before it. -/
theorem repliesFrom_eq_mapIdx (name d : Bytes) (calls : List Call) :
    repliesFrom name (some d) calls =
      calls.mapIdx fun i call => call.reply name (leftAfter d (calls.take i)) := by
  refine List.ext_getElem? fun i => ?_
  rw [getElem?_repliesFrom, List.getElem?_mapIdx, foldl_leaves]

theorem delivered_repliesFrom_none (name : Bytes) (calls : List Call) :
    (repliesFrom name none calls).flatMap Reply.delivered = [] := by
  induction calls with
  | nil => rfl
  | cons call calls ih => cases call <;> exact ih

/-- **The bytes delivered** are in front of all bytes. -/
theorem delivered_repliesFrom (name d : Bytes) (calls : List Call) :
    (repliesFrom name (some d) calls).flatMap Reply.delivered =
      d.take (asked (calls.takeWhile (· ≠ .close))) := by
  induction calls generalizing d with
  | nil => simp [repliesFrom, asked]
  | cons call calls ih =>
      cases call with
      | read n =>
          have hih := ih (d.drop n)
          simp only [repliesFrom, Call.reply, Call.leaves, Option.map_some, List.flatMap_cons, hih,
            Reply.delivered]
          simp [asked, List.take_add]
      | close =>
          simp only [repliesFrom, Call.reply, Call.leaves, List.flatMap_cons,
            delivered_repliesFrom_none]
          simp [asked, Reply.delivered]
      | isOpen =>
          simp only [repliesFrom, Call.reply, Call.leaves, List.flatMap_cons, ih]
          simp [asked, Reply.delivered]

/-! ### Sources that serve their bytes -/

/-- What the operations of a source with a given name do, by its states: those in which it is open
with some bytes left, and those in which it has been closed. -/
structure Serves {σ : Type} [InputSource σ] (name : Bytes) (Open : σ → Bytes → Prop)
    (Closed : σ → Prop) : Prop where
  read : ∀ {s d}, Open s d → ∀ n, ∃ s', InputSource.read s n = (.ok (d.take n), s') ∧
    Open s' (d.drop n)
  close : ∀ {s d}, Open s d → ∃ s', InputSource.close s = (.ok (), s') ∧ Closed s'
  isOpen : ∀ {s d}, Open s d → InputSource.isOpen s = true
  read_closed : ∀ {s}, Closed s → ∀ n, InputSource.read s n = (.error (.readClosed name), s)
  close_closed : ∀ {s}, Closed s → InputSource.close s = (.ok (), s)
  isOpen_closed : ∀ {s}, Closed s → InputSource.isOpen s = false

namespace Serves

variable {σ : Type} [InputSource σ] {name : Bytes} {Open : σ → Bytes → Prop} {Closed : σ → Prop}

/-- A source is in a state of one of the two kinds. -/
def Stands (Open : σ → Bytes → Prop) (Closed : σ → Prop) (s : σ) : Option Bytes → Prop
  | some d => Open s d
  | none => Closed s

/-- **A call** is answered as the state says, and leads to a source in the next state. -/
theorem serve (h : Serves name Open Closed) {s : σ} {left : Option Bytes}
    (hs : Stands Open Closed s left) (call : Call) :
    ∃ s', InputSource.serve call s = (call.reply name left, s') ∧
      Stands Open Closed s' (call.leaves left) := by
  cases left with
  | some d =>
      cases call with
      | read n =>
          obtain ⟨s', hr, hs'⟩ := h.read hs n
          exact ⟨s', by rw [InputSource.serve, hr]; rfl, hs'⟩
      | close =>
          obtain ⟨s', hc, hs'⟩ := h.close hs
          exact ⟨s', by rw [InputSource.serve, hc]; rfl, hs'⟩
      | isOpen => exact ⟨s, by rw [InputSource.serve, h.isOpen hs]; rfl, hs⟩
  | none =>
      cases call with
      | read n => exact ⟨s, by rw [InputSource.serve, h.read_closed hs n]; rfl, hs⟩
      | close => exact ⟨s, by rw [InputSource.serve, h.close_closed hs]; rfl, hs⟩
      | isOpen => exact ⟨s, by rw [InputSource.serve, h.isOpen_closed hs]; rfl, hs⟩

/-- A source that has been closed is left as it is by every call. -/
theorem serve_closed (h : Serves name Open Closed) {s : σ} (hs : Closed s) (call : Call) :
    (InputSource.serve call s).2 = s := by
  cases call with
  | read n => rw [InputSource.serve, h.read_closed hs n]; rfl
  | close => rw [InputSource.serve, h.close_closed hs]; rfl
  | isOpen => rfl

/-- **A run of calls**, from any state. -/
theorem serveAll (h : Serves name Open Closed) {s : σ} {left : Option Bytes}
    (hs : Stands Open Closed s left) (calls : List Call) :
    (InputSource.serveAll s calls).1 = repliesFrom name left calls ∧
      Stands Open Closed (InputSource.serveAll s calls).2
        (calls.foldl (fun left call => call.leaves left) left) := by
  induction calls generalizing s left with
  | nil => exact ⟨rfl, hs⟩
  | cons call calls ih =>
      obtain ⟨s', hserve, hs'⟩ := h.serve hs call
      obtain ⟨hreplies, hstands⟩ := ih hs'
      rw [InputSource.serveAll, hserve]
      exact ⟨congrArg (call.reply name left :: ·) hreplies, hstands⟩

/-- **The answers to calls**, if the source is open with the bytes `d` left. -/
theorem answers (h : Serves name Open Closed) {s : σ} {d : Bytes} (hs : Open s d) :
    Answers s name d := by
  have hstands : Stands Open Closed s (some d) := hs
  refine ⟨fun calls => ?_, fun calls => ?_, fun calls call hclose => ?_⟩
  · rw [(h.serveAll hstands calls).1, repliesFrom_eq_mapIdx]
  · rw [(h.serveAll hstands calls).1, delivered_repliesFrom]
  · have hlast := (h.serveAll hstands calls).2
    rw [foldl_leaves, leftAfter, if_pos hclose] at hlast
    exact h.serve_closed hlast call

end Serves

/-! ### The three kinds -/

/-- Bytes in memory serve what is left of them. -/
theorem serves_memory (name : Bytes) :
    Serves name
      (fun (s : MemorySource) d => s.description = name ∧ s.isOpen = true ∧ s.rest = d)
      (fun s => s.description = name ∧ s.isOpen = false) where
  read := by
    rintro s d ⟨hname, ho, rfl⟩ n
    exact ⟨_, MemorySource.read_open n ho, hname, ho, rfl⟩
  close := by
    rintro s d ⟨hname, -, -⟩
    exact ⟨_, rfl, hname, rfl⟩
  isOpen h := h.2.1
  read_closed := by
    rintro s ⟨rfl, hc⟩ n
    simp [InputSource.read, MemorySource.read, hc]
  close_closed := by
    rintro ⟨rest, description, isOpen⟩ ⟨-, rfl⟩
    rfl
  isOpen_closed h := h.2

/-- A stream serves what is left of it, with any marks that it may carry. -/
theorem serves_stream (name : Bytes) :
    Serves name (fun (s : StreamSource) d => s.description = name ∧ s.Intact d)
      (fun s => s.description = name ∧ s.stream = none) where
  read := by
    rintro s d ⟨hname, hs⟩ n
    obtain ⟨s', hr, hs', hname'⟩ := hs.read n
    exact ⟨s', hr, hname'.trans hname, hs'⟩
  close := by
    rintro s d ⟨hname, -⟩
    exact ⟨_, rfl, hname, rfl⟩
  isOpen h := by simp [InputSource.isOpen, h.2.stream]
  read_closed := by
    rintro s ⟨rfl, hc⟩ n
    simp [InputSource.read, StreamSource.read, hc]
  close_closed := by
    rintro ⟨stream, description, isBroken, isEnded, isFailed⟩ ⟨-, rfl⟩
    rfl
  isOpen_closed h := by simp [InputSource.isOpen, h.2]

/-- A descriptor on a regular file serves the contents of the file from its offset on. -/
theorem serves_file (name : Bytes) :
    Serves name
      (fun (s : FileSource) d => s.description = name ∧ ∃ number offset,
        s.descriptor = some (.file number offset) ∧ d = (s.files.content number).drop offset)
      (fun s => s.description = name ∧ s.descriptor = none) where
  read := by
    rintro s d ⟨hname, number, offset, hs, rfl⟩ n
    refine ⟨_, FileSource.read_file hs n, hname, number, _, rfl, ?_⟩
    rw [← List.drop_drop, drop_length_take]
  close := by
    rintro s d ⟨hname, number, offset, hs, -⟩
    exact ⟨{ s with descriptor := none }, by simp [InputSource.close, FileSource.close, hs],
      hname, rfl⟩
  isOpen := by
    rintro s d ⟨-, number, offset, hs, -⟩
    simp [InputSource.isOpen, hs]
  read_closed := by
    rintro s ⟨rfl, hc⟩ n
    simp [InputSource.read, FileSource.read, hc]
  close_closed := by
    rintro ⟨files, descriptor, description⟩ ⟨-, rfl⟩
    rfl
  isOpen_closed h := by simp [InputSource.isOpen, h.2]

/-- **Sources are interchangeable.** A source in memory over some bytes, one over a stream of them
and one that a file with these contents is opened as answer calls alike, but for the name in the
message of a failure: as long as they have not been closed, a read answers the next bytes, and after
that it fails, whether or not they are closed again. -/
theorem sources_alike (d : Bytes) :
    (∀ name, Answers ({ rest := d, description := name } : MemorySource) name d) ∧
    (∀ name, Answers ({ stream := some d, description := name } : StreamSource) name d) ∧
    (∀ files path, files.contentAt? path = some d →
      ∃ s : FileSource, FileSource.openPath files path = .ok s ∧ Answers s path d) := by
  refine ⟨fun name => ?_, fun name => ?_, fun files path h => ?_⟩
  · exact (serves_memory name).answers ⟨rfl, rfl, rfl⟩
  · exact (serves_stream name).answers ⟨rfl, intact_stream d name⟩
  · obtain ⟨number, rfl, ho⟩ := openPath_of_contentAt? h
    exact ⟨_, ho, (serves_file path).answers ⟨rfl, number, 0, rfl, rfl⟩⟩

/-- Reads up to the end and over it, one of them of nothing, and then calls of a closed source. -/
def callsSample : List Call :=
  [.read 2, .read 0, .read 5, .read 5, .isOpen, .close, .read 1, .close, .isOpen]

theorem sources_alike_callsSample :
    let files : FileSystem :=
      { entries := [([ascii "f"], .file 0)], contents := [(0, ascii "abc")] }
    let replies : List Reply :=
      [.bytes (.ok (ascii "ab")), .bytes (.ok []), .bytes (.ok (ascii "c")), .bytes (.ok []),
        .flag true, .closed (.ok ()), .bytes (.error (.readClosed (ascii "f"))), .closed (.ok ()),
        .flag false]
    files.contentAt? (ascii "f") = some (ascii "abc") ∧
      (∃ s : FileSource, FileSource.openPath files (ascii "f") = .ok s ∧
        (serveAll s callsSample).1 = replies) ∧
      (serveAll ({ stream := some (ascii "abc"), description := ascii "f" } : StreamSource)
        callsSample).1 = replies := by
  intro files replies
  have hcontent : files.contentAt? (ascii "f") = some (ascii "abc") := by decide +kernel
  have hreplies : (callsSample.mapIdx fun i call =>
      call.reply (ascii "f") (leftAfter (ascii "abc") (callsSample.take i))) = replies := rfl
  obtain ⟨-, hstream, hfile⟩ := sources_alike (ascii "abc")
  obtain ⟨s, ho, hs⟩ := hfile files (ascii "f") hcontent
  exact ⟨hcontent, ⟨s, ho, (hs.replies callsSample).trans hreplies⟩,
    ((hstream (ascii "f")).replies callsSample).trans hreplies⟩

end InputSource

end DoctypeProbe
