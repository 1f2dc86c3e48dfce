import DoctypeProbe.Source

/-!
# Metered Sources

A metered source passes every operation on to another source and counts: the reads that were
made, failed ones included, the bytes they delivered, and the calls that closed it. Whatever
runs over a source can be run over a metered one to see how much of it was used.
-/

namespace DoctypeProbe

/-- A source with a count of its operations. -/
structure Metered (σ : Type) where
  /-- The source that does the work. -/
  inner : σ
  /-- The number of reads, failed ones included. -/
  reads : Nat := 0
  /-- The number of bytes the reads delivered. -/
  consumed : Nat := 0
  /-- The number of calls that closed the source, failed ones included. -/
  closes : Nat := 0
deriving DecidableEq, Repr

namespace Metered

variable {σ : Type} [InputSource σ]

/-- Reads from the inner source and counts the read and its bytes. -/
def read (m : Metered σ) (n : Nat) : Except IoError Bytes × Metered σ :=
  match InputSource.read m.inner n with
  | (.ok bs, s) =>
    (.ok bs, { m with inner := s, reads := m.reads + 1, consumed := m.consumed + bs.length })
  | (.error e, s) => (.error e, { m with inner := s, reads := m.reads + 1 })

/-- Closes the inner source and counts the call. -/
def close (m : Metered σ) : Except IoError Unit × Metered σ :=
  let (outcome, s) := InputSource.close m.inner
  (outcome, { m with inner := s, closes := m.closes + 1 })

instance : InputSource (Metered σ) where
  read := read
  close := close
  isOpen m := InputSource.isOpen m.inner
  description m := InputSource.description m.inner
  remaining m := InputSource.remaining m.inner
  read_bound {m m' n bs} h := by
    unfold read at h
    split at h
    · rename_i bs' s hr
      cases h
      exact InputSource.read_bound hr
    · cases h

end Metered

end DoctypeProbe
