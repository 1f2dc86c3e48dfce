import DoctypeProbe.Source

/-!
# What a Source Has Delivered

A source in general may fail at any read and work again at a later one, so nothing can be said
of it beyond what its reads have answered. `Pulls` follows reads that answer something, block
after block. `Recorded` is a source with a record of the bytes that its reads have delivered
so far, in order; forgetting the record gives the source back.

## Main results

* `Recorded.read_inner`: forgetting the record gives the source back.
* `Recorded.delivered_of_pulls`: blocks pulled are what the record grows by.
-/

namespace DoctypeProbe

section

variable {σ : Type} [InputSource σ]

/-- Reads of up to `n` bytes that answer the given blocks one after the other, none of them
empty. -/
inductive Pulls (n : Nat) : σ → List Bytes → σ → Prop
  | done (s : σ) : Pulls n s [] s
  | read {s s' s'' : σ} {block : Bytes} {blocks : List Bytes} :
      InputSource.read s n = (.ok block, s') → block ≠ [] → Pulls n s' blocks s'' →
        Pulls n s (block :: blocks) s''

theorem Pulls.ne_nil {n : Nat} {s s' : σ} {blocks : List Bytes} (h : Pulls n s blocks s') :
    ∀ block ∈ blocks, block ≠ [] := by
  induction h with
  | done => simp
  | read _ hne _ ih => exact List.forall_mem_cons.mpr ⟨hne, ih⟩

theorem Pulls.append {n : Nat} {s s' s'' : σ} {blocks more : List Bytes}
    (h : Pulls n s blocks s') (h' : Pulls n s' more s'') : Pulls n s (blocks ++ more) s'' := by
  induction h with
  | done => exact h'
  | read hr hne _ ih => exact .read hr hne (ih h')

/-- The blocks before the last one are blocks pulled. -/
theorem Pulls.dropLast {n : Nat} {s s' : σ} {blocks : List Bytes} (h : Pulls n s blocks s') :
    ∃ s'', Pulls n s blocks.dropLast s'' := by
  induction h with
  | done s => exact ⟨s, .done s⟩
  | @read s s₁ s₂ block blocks hr hne _ ih =>
      obtain ⟨s'', hp⟩ := ih
      cases blocks with
      | nil => exact ⟨s, .done s⟩
      | cons => exact ⟨s'', .read hr hne hp⟩

/-- No bytes pulled are no blocks pulled. -/
theorem Pulls.eq_nil_of_flatten {n : Nat} {s s' : σ} {blocks : List Bytes}
    (h : Pulls n s blocks s') (hf : blocks.flatten = []) : blocks = [] := by
  rcases blocks with - | ⟨block, blocks⟩
  · rfl
  · exact absurd (List.flatten_eq_nil_iff.mp hf block List.mem_cons_self)
      (h.ne_nil block List.mem_cons_self)

end

/-! ### Sources with a record -/

/-- A source with a record of the bytes it has delivered. -/
structure Recorded (σ : Type) where
  /-- The source that does the work. -/
  inner : σ
  /-- The bytes delivered so far. -/
  delivered : Bytes := []

namespace Recorded

variable {σ : Type} [InputSource σ]

/-- Reads from the inner source and records what it delivers. -/
def read (r : Recorded σ) (n : Nat) : Except IoError Bytes × Recorded σ :=
  match InputSource.read r.inner n with
  | (.ok bs, s) => (.ok bs, { inner := s, delivered := r.delivered ++ bs })
  | (.error e, s) => (.error e, { r with inner := s })

instance : InputSource (Recorded σ) where
  read := read
  close r := (InputSource.close r.inner).map id fun s => { r with inner := s }
  isOpen r := InputSource.isOpen r.inner
  description r := InputSource.description r.inner
  remaining r := InputSource.remaining r.inner
  read_bound {r r' n bs} h := by
    unfold read at h
    split at h
    · rename_i bs' s hr
      cases h
      exact InputSource.read_bound hr
    · cases h

/-- Forgetting the record gives the source back. -/
theorem read_inner (r : Recorded σ) (n : Nat) :
    InputSource.read r.inner n = (InputSource.read r n).map id inner := by
  change _ = (read r n).map id inner
  rw [read]
  split
  · rename_i bs s hr
    exact hr
  · rename_i e s hr
    exact hr

theorem delivered_of_ok {r r' : Recorded σ} {n : Nat} {bs : Bytes}
    (h : InputSource.read r n = (.ok bs, r')) : r'.delivered = r.delivered ++ bs := by
  change read r n = _ at h
  rw [read] at h
  split at h
  · cases h
    rfl
  · cases h

theorem delivered_of_error {r r' : Recorded σ} {n : Nat} {e : IoError}
    (h : InputSource.read r n = (.error e, r')) : r'.delivered = r.delivered := by
  change read r n = _ at h
  rw [read] at h
  split at h
  · cases h
  · cases h
    rfl

/-- **Blocks pulled** are what the record grows by. -/
theorem delivered_of_pulls {r r' : Recorded σ} {n : Nat} {blocks : List Bytes}
    (h : Pulls n r blocks r') : r'.delivered = r.delivered ++ blocks.flatten := by
  induction h with
  | done => simp
  | read hr _ _ ih => rw [ih, delivered_of_ok hr, List.flatten_cons, List.append_assoc]

/-- The read behind the blocks pulled delivers nothing, at the end of the source. -/
theorem delivered_of_pulls_end {r r' r'' : Recorded σ} {n : Nat} {blocks : List Bytes}
    (h : Pulls n r blocks r') (hr : InputSource.read r' n = (.ok [], r'')) :
    r''.delivered = r.delivered ++ blocks.flatten := by
  rw [delivered_of_ok hr, List.append_nil, delivered_of_pulls h]

/-- The read behind the blocks pulled delivers nothing, because it fails. -/
theorem delivered_of_pulls_error {r r' r'' : Recorded σ} {n : Nat} {blocks : List Bytes}
    {e : IoError} (h : Pulls n r blocks r') (hr : InputSource.read r' n = (.error e, r'')) :
    r''.delivered = r.delivered ++ blocks.flatten := by
  rw [delivered_of_error hr, delivered_of_pulls h]

end Recorded

end DoctypeProbe
