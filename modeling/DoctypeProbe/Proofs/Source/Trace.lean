import DoctypeProbe.Proofs.Source.Record

/-!
# The Life of a Source

A traced source passes every operation on to another source and records it, with what it
answered, in order. What owns a source also ends its life: `Traced.destroy` is the last thing
that happens to it, and releases what has not been released by then.

## Main results

* `Traced.events_of_pulls`: blocks pulled are successful reads.
-/

namespace DoctypeProbe

/-- What happens to a source. -/
inductive Event where
  /-- A read, and what it answered. -/
  | read (outcome : Except IoError Bytes)
  /-- A call that closes the source, and what it answered. -/
  | close (outcome : Except IoError Unit)
  /-- The end of the source. -/
  | destroy

/-- A source with a record of what has happened to it. -/
structure Traced (σ : Type) where
  /-- The source that does the work. -/
  inner : σ
  /-- What has happened so far, in order. -/
  events : List Event := []

namespace Traced

variable {σ : Type} [InputSource σ]

/-- Reads from the inner source, and records what it answers. -/
def read (t : Traced σ) (n : Nat) : Except IoError Bytes × Traced σ :=
  let (outcome, s) := InputSource.read t.inner n
  (outcome, { inner := s, events := t.events ++ [.read outcome] })

/-- Closes the inner source, and records what it answers. -/
def close (t : Traced σ) : Except IoError Unit × Traced σ :=
  let (outcome, s) := InputSource.close t.inner
  (outcome, { inner := s, events := t.events ++ [.close outcome] })

instance : InputSource (Traced σ) where
  read := read
  close := close
  isOpen t := InputSource.isOpen t.inner
  description t := InputSource.description t.inner
  remaining t := InputSource.remaining t.inner
  read_bound {t t' n bs} h := by
    rcases hr : InputSource.read t.inner n with ⟨outcome, s⟩
    rw [read, hr] at h
    cases h
    exact InputSource.read_bound hr

/-- Ends the life of a source. -/
def destroy (t : Traced σ) : Traced σ := { t with events := t.events ++ [.destroy] }

theorem events_of_read {t t' : Traced σ} {n : Nat} {outcome : Except IoError Bytes}
    (h : InputSource.read t n = (outcome, t')) : t'.events = t.events ++ [.read outcome] := by
  cases h
  rfl

/-- The events of successful reads. -/
def reads (answers : List Bytes) : List Event := answers.map fun answer => .read (.ok answer)

/-- **Blocks pulled** are successful reads. -/
theorem events_of_pulls {t t' : Traced σ} {n : Nat} {blocks : List Bytes}
    (h : Pulls n t blocks t') : t'.events = t.events ++ reads blocks := by
  induction h with
  | done => exact (List.append_nil _).symm
  | read hr _ _ ih =>
      rw [ih, events_of_read hr, List.append_assoc]
      rfl

end Traced

end DoctypeProbe
