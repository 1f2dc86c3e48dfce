import DoctypeProbe.Source.File
import DoctypeProbe.Source.Memory

/-!
# Opened Sources

What opening a named piece of content can give: a descriptor on a file, bytes in memory, or a
stream that was there before. Every operation is that of the source inside.
-/

namespace DoctypeProbe

/-- A source over a file, over bytes in memory, or of a given kind. -/
inductive Opened (σ : Type) where
  /-- A descriptor on a file. -/
  | file (source : FileSource)
  /-- Bytes in memory. -/
  | memory (source : MemorySource)
  /-- A source that was there before. -/
  | stream (source : σ)
deriving DecidableEq, Repr

namespace Opened

variable {σ : Type}

/-- A source over the same descriptor, read from a later state of the file system. -/
def observe (s : Opened σ) (files : FileSystem) : Opened σ :=
  match s with
  | file s => file { s with files }
  | s => s

variable [InputSource σ]

/-- Reads from the source inside. -/
def read (s : Opened σ) (n : Nat) : Except IoError Bytes × Opened σ :=
  match s with
  | file s => (InputSource.read s n).map id file
  | memory s => (InputSource.read s n).map id memory
  | stream s => (InputSource.read s n).map id stream

/-- Closes the source inside. -/
def close (s : Opened σ) : Except IoError Unit × Opened σ :=
  match s with
  | file s => (InputSource.close s).map id file
  | memory s => (InputSource.close s).map id memory
  | stream s => (InputSource.close s).map id stream

/-- Whether the source inside has not been closed. -/
def isOpen : Opened σ → Bool
  | file s => InputSource.isOpen s
  | memory s => InputSource.isOpen s
  | stream s => InputSource.isOpen s

/-- The name of the source inside. -/
def description : Opened σ → Bytes
  | file s => InputSource.description s
  | memory s => InputSource.description s
  | stream s => InputSource.description s

/-- The bound of the source inside. -/
def remaining : Opened σ → Nat
  | file s => InputSource.remaining s
  | memory s => InputSource.remaining s
  | stream s => InputSource.remaining s

instance : InputSource (Opened σ) where
  read := read
  close := close
  isOpen := isOpen
  description := description
  remaining := remaining
  read_bound {s s' n bs} h := by
    cases s <;>
    · simp only [read, Prod.map, id, Prod.mk.injEq] at h
      obtain ⟨ho, rfl⟩ := h
      exact InputSource.read_bound (Prod.ext ho rfl)

end Opened

end DoctypeProbe
