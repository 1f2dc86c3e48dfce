import DoctypeProbe.Source

/-!
# Faulty Sources

A faulty source behaves as another source until a fault that was set on it takes effect: a
read that would deliver nothing can fail instead, and closing can fail after the inner
source has been closed. With the first fault set, a source delivers its bytes and then fails
every read.
-/

namespace DoctypeProbe

/-- A source with faults set on it. -/
structure Faulty (σ : Type) where
  /-- The source that does the work. -/
  inner : σ
  /-- Raised by a read that would deliver nothing. -/
  atEnd : Option IoError := none
  /-- Raised by every call that closes the source, after closing it. -/
  onClose : Option IoError := none
deriving DecidableEq, Repr

namespace Faulty

variable {σ : Type} [InputSource σ]

/-- Reads from the inner source; an empty answer raises the fault set for it. -/
def read (f : Faulty σ) (n : Nat) : Except IoError Bytes × Faulty σ :=
  match InputSource.read f.inner n with
  | (.error e, s) => (.error e, { f with inner := s })
  | (.ok bs, s) =>
    match bs, f.atEnd with
    | [], some e => (.error e, { f with inner := s })
    | bs, _ => (.ok bs, { f with inner := s })

/-- Closes the inner source, then raises the fault set for it. -/
def close (f : Faulty σ) : Except IoError Unit × Faulty σ :=
  let (outcome, s) := InputSource.close f.inner
  match f.onClose with
  | some e => (.error e, { f with inner := s })
  | none => (outcome, { f with inner := s })

instance : InputSource (Faulty σ) where
  read := read
  close := close
  isOpen f := InputSource.isOpen f.inner
  description f := InputSource.description f.inner
  remaining f := InputSource.remaining f.inner
  read_bound {f f' n bs} h := by
    unfold read at h
    split at h
    · cases h
    · rename_i bs' s hr
      split at h
      · cases h
      · cases h
        exact InputSource.read_bound hr

end Faulty

end DoctypeProbe
