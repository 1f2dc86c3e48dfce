import DoctypeProbe.Source

/-!
# Memory Sources

A source over bytes held in memory. It is also the shape of any stream whose bytes are known
and whose reads never fail, such as an open standard input.

## Main results

* `MemorySource.read_open` — an open source delivers the next bytes, as many as were asked
  for or as there are.
-/

namespace DoctypeProbe

/-- A source over bytes in memory. -/
structure MemorySource where
  /-- The bytes not read yet. -/
  rest : Bytes
  /-- The name in messages. -/
  description : Bytes := ascii "memory buffer"
  /-- Whether the source has not been closed. -/
  isOpen : Bool := true
deriving DecidableEq, Repr

namespace MemorySource

/-- Delivers the next bytes, unless the source has been closed. -/
def read (s : MemorySource) (n : Nat) : Except IoError Bytes × MemorySource :=
  if s.isOpen then (.ok (s.rest.take n), { s with rest := s.rest.drop n })
  else (.error (.readClosed s.description), s)

/-- Closing never fails, and closing again does nothing. -/
def close (s : MemorySource) : Except IoError Unit × MemorySource :=
  (.ok (), { s with isOpen := false })

theorem read_open {s : MemorySource} (n : Nat) (h : s.isOpen = true) :
    s.read n = (.ok (s.rest.take n), { s with rest := s.rest.drop n }) := by
  simp [read, h]

instance : InputSource MemorySource where
  read := read
  close := close
  isOpen := isOpen
  description := description
  remaining s := s.rest.length
  read_bound {s s' n bs} h := by
    unfold read at h
    split at h
    · cases h
      simp only [List.length_take, List.length_drop]
      omega
    · cases h

end MemorySource

end DoctypeProbe
