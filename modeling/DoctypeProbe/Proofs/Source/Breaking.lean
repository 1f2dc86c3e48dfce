import DoctypeProbe.Proofs.Source.Delivery
import DoctypeProbe.Proofs.Source.Record
import DoctypeProbe.Source.Faulty

/-!
# Sources That Break Off

A source may deliver some bytes and then fail: a device that is unplugged, a connection that is
lost. `BreaksOff e s d` says this as `Delivers s d` says that all goes well: reads answer the
bytes of `d` one after the other in pieces of any positive length, and once none are left a
read fails with `e`. What a read does after that is left to the source.

## Main results

* `BreaksOff.pulls`: blocks pulled come off the front of the bytes left.
* `breaksOff_faulty`: a source with a fault set at its end breaks off there.
-/

namespace DoctypeProbe

variable {σ : Type} [InputSource σ]

/-- A relation between sources and the bytes they have left that every read keeps until none
are left: the read answers some of them from the front, or fails with `e` if there are none. -/
def Breaking (e : IoError) (Left : σ → Bytes → Prop) : Prop :=
  ∀ {s : σ} {d : Bytes} {n : Nat}, Left s d → 0 < n →
    (d = [] ∧ ∃ s', InputSource.read s n = (.error e, s')) ∨
      ∃ bs s' rest, InputSource.read s n = (.ok bs, s') ∧ bs ≠ [] ∧ d = bs ++ rest ∧ Left s' rest

/-- A source delivers `d` in pieces of any positive length, and then fails with `e`. -/
def BreaksOff (e : IoError) (s : σ) (d : Bytes) : Prop :=
  ∃ Left : σ → Bytes → Prop, Breaking e Left ∧ Left s d

/-- **One read** of a source that breaks off behind `d`. -/
theorem BreaksOff.read {e : IoError} {s : σ} {d : Bytes} {n : Nat} (h : BreaksOff e s d)
    (hn : 0 < n) :
    (d = [] ∧ ∃ s', InputSource.read s n = (.error e, s')) ∨
      ∃ bs s' rest, InputSource.read s n = (.ok bs, s') ∧ bs ≠ [] ∧ d = bs ++ rest ∧
        BreaksOff e s' rest := by
  obtain ⟨Left, hLeft, hs⟩ := h
  rcases hLeft hs hn with hend | ⟨bs, s', rest, hr, hne, hd, hs'⟩
  · exact Or.inl hend
  · exact Or.inr ⟨bs, s', rest, hr, hne, hd, Left, hLeft, hs'⟩

/-- **Blocks pulled** come off the front of the bytes left. -/
theorem BreaksOff.pulls {e : IoError} {s s' : σ} {d : Bytes} {n : Nat} {blocks : List Bytes}
    (h : BreaksOff e s d) (hn : 0 < n) (hp : Pulls n s blocks s') :
    ∃ rest, d = blocks.flatten ++ rest ∧ BreaksOff e s' rest := by
  induction hp generalizing d with
  | done => exact ⟨d, rfl, h⟩
  | read hr hne _ ih =>
      rcases h.read hn with ⟨-, s', hr'⟩ | ⟨bs, s', rest, hr', -, rfl, hs'⟩
      · rw [hr] at hr'
        cases hr'
      · rw [hr] at hr'
        cases hr'
        obtain ⟨rest', rfl, hs''⟩ := ih hs'
        exact ⟨rest', by rw [List.flatten_cons, List.append_assoc], hs''⟩

/-- Blocks pulled are successful reads. -/
theorem Pulls.reached {n : Nat} {s s' : σ} {blocks : List Bytes} (h : Pulls n s blocks s') :
    Reached s s' := by
  induction h with
  | done => exact .start
  | read hr _ _ ih => exact (Reached.read .start hr).trans ih

/-- A source with a fault set at its end delivers what it would without, and breaks off. -/
theorem breaksOff_faulty {s : σ} {d : Bytes} (h : Delivers s d) (e : IoError)
    (onClose : Option IoError) :
    BreaksOff e ({ inner := s, atEnd := some e, onClose } : Faulty σ) d := by
  refine ⟨fun f d => f.atEnd = some e ∧ Delivers f.inner d, ?_, rfl, h⟩
  rintro f d n ⟨he, hf⟩ hn
  obtain ⟨bs, s', rest, hr, hd, hnil, hs'⟩ := hf.read hn
  rcases bs with - | ⟨b, bs⟩
  · refine Or.inl ⟨hnil rfl, { f with inner := s' }, ?_⟩
    simp only [InputSource.read, Faulty.read, hr, he]
  · refine Or.inr ⟨b :: bs, { f with inner := s' }, rest, ?_, List.cons_ne_nil b bs, hd, he, hs'⟩
    simp only [InputSource.read, Faulty.read, hr, he]

end DoctypeProbe
