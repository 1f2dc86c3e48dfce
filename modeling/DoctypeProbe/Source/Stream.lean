import DoctypeProbe.Source

/-!
# Stream Sources

A source over a text stream that it owns. Closing it gives the stream up.

A stream keeps three marks. It is marked as ended once it had to answer fewer bytes than it was
asked for, and as failed with that; a stream that was read exactly to its end carries neither
mark yet. A stream marked as broken makes every read fail, without an error number. Only an
unmarked stream answers bytes, and asking any other marks it as failed.

## Main results

* `StreamSource.extract` — what a stream answers, and how it is marked then.
-/

namespace DoctypeProbe

/-- A source over a stream. -/
structure StreamSource where
  /-- The bytes of the stream not read yet; `none` once the stream has been given up. -/
  stream : Option Bytes
  /-- The name in messages. -/
  description : Bytes := ascii "string stream"
  /-- Whether the stream is marked as broken. -/
  isBroken : Bool := false
  /-- Whether the stream is marked as ended. -/
  isEnded : Bool := false
  /-- Whether the stream is marked as failed. -/
  isFailed : Bool := false
deriving DecidableEq, Repr

namespace StreamSource

/-- Whether the stream carries no mark. -/
def isGood (s : StreamSource) : Bool := !(s.isBroken || s.isEnded || s.isFailed)

/-- Asks the stream for up to `n` of its bytes, of which `rest` are left. -/
def extract (s : StreamSource) (rest : Bytes) (n : Nat) : Bytes × StreamSource :=
  if s.isGood then
    let isShort := decide (rest.length < n)
    (rest.take n, { s with stream := some (rest.drop n), isEnded := isShort, isFailed := isShort })
  else ([], { s with isFailed := true })

/-- Delivers the next bytes of an intact stream. An ended one is not asked again. -/
def read (s : StreamSource) (n : Nat) : Except IoError Bytes × StreamSource :=
  match s.stream with
  | none => (.error (.readClosed s.description), s)
  | some rest =>
    if s.isEnded then (.ok [], s)
    else
      let (bs, s') := s.extract rest n
      if s'.isBroken then (.error (.readFailed s'.description 0), s') else (.ok bs, s')

/-- Closing gives the stream up; it never fails. -/
def close (s : StreamSource) : Except IoError Unit × StreamSource :=
  (.ok (), { s with stream := none })

/-- What a stream answers is no more than it was asked for, and comes off its rest. -/
theorem extract_bound {s : StreamSource} {rest : Bytes} (hs : s.stream = some rest) (n : Nat) :
    (s.extract rest n).1.length ≤ n ∧
      (s.extract rest n).1.length + ((s.extract rest n).2.stream.getD []).length ≤ rest.length := by
  unfold extract
  split
  · simp only [Option.getD_some, List.length_take, List.length_drop]
    omega
  · simp [hs]

instance : InputSource StreamSource where
  read := read
  close := close
  isOpen s := s.stream.isSome
  description := description
  remaining s := (s.stream.getD []).length
  read_bound {s s' n bs} h := by
    unfold read at h
    split at h
    · cases h
    · rename_i rest hr
      have hb := extract_bound hr n
      split at h
      · cases h
        simp
      · dsimp only at h
        split at h
        · cases h
        · cases h
          rw [hr]
          exact hb

end StreamSource

end DoctypeProbe
