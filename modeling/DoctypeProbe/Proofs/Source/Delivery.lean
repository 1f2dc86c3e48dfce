import DoctypeProbe.Source.Opened
import DoctypeProbe.Source.Stream

/-!
# Sources That Deliver Their Bytes

What a reader makes of a source should depend on the bytes of the source alone, and not on
how many of them a read happens to hand over. `Delivers s d` says what is asked of a source
for that: as long as reads ask for something, none of them fails, each answers some of the
bytes of `d` that have not been answered yet, in order, and an empty answer means that there
are none left. How long the answers are is left to the source.

A source can be read without end, so the relation is the greatest one that reads keep
(`Delivery`): a source delivers `d` if it stands in some such relation to `d`.

Closing is apart from delivering: `Closable s` says that it succeeds after any reads.

## Main results

* `Delivers.read`: one read of a source that delivers `d`.
* `delivers_memory`, `delivers_stream`, `delivers_file`: open sources over known bytes
  deliver them, and can be closed.
* `Delivers.map`, `Closable.map`: what is passed through to another source stays so.
-/

namespace DoctypeProbe

section

variable {σ : Type} [InputSource σ]

/-- A relation between sources and the bytes they have left that every read keeps: the read
succeeds, what it answers comes off the front of the bytes left, and it answers nothing only
at their end. -/
def Delivery (Left : σ → Bytes → Prop) : Prop :=
  ∀ {s : σ} {d : Bytes} {n : Nat}, Left s d → 0 < n → ∃ bs s' rest,
    InputSource.read s n = (.ok bs, s') ∧ d = bs ++ rest ∧ (bs = [] → d = []) ∧ Left s' rest

/-- A source delivers `d`: its reads never fail, and answer the bytes of `d` one after the
other in pieces of any positive length. -/
def Delivers (s : σ) (d : Bytes) : Prop :=
  ∃ Left : σ → Bytes → Prop, Delivery Left ∧ Left s d

/-- **One read** of a source that delivers `d`. -/
theorem Delivers.read {s : σ} {d : Bytes} {n : Nat} (h : Delivers s d) (hn : 0 < n) :
    ∃ bs s' rest, InputSource.read s n = (.ok bs, s') ∧ d = bs ++ rest ∧ (bs = [] → d = []) ∧
      Delivers s' rest := by
  obtain ⟨Left, hLeft, hs⟩ := h
  obtain ⟨bs, s', rest, hr, hd, hnil, hs'⟩ := hLeft hs hn
  exact ⟨bs, s', rest, hr, hd, hnil, Left, hLeft, hs'⟩

/-- The states of a source that reads lead to, as long as they succeed. -/
inductive Reached (s : σ) : σ → Prop
  | start : Reached s s
  | read {s' s'' : σ} {n : Nat} {bs : Bytes} :
      Reached s s' → InputSource.read s' n = (.ok bs, s'') → Reached s s''

theorem Reached.trans {s s' s'' : σ} (h : Reached s s') (h' : Reached s' s'') :
    Reached s s'' := by
  induction h' with
  | start => exact h
  | read _ hr ih => exact ih.read hr

/-- A source can be closed, however much of it has been read. -/
def Closable (s : σ) : Prop := ∀ s', Reached s s' → (InputSource.close s').1 = .ok ()

/-! ### Sources passed through -/

variable {τ : Type} [InputSource τ]

/-- What a source is read through delivers the same, if it passes reads on. -/
theorem Delivers.map {s : σ} {d : Bytes} (f : σ → τ)
    (hf : ∀ s n, InputSource.read (f s) n = (InputSource.read s n).map id f)
    (h : Delivers s d) : Delivers (f s) d := by
  refine ⟨fun t d => ∃ s, t = f s ∧ Delivers s d, ?_, s, rfl, h⟩
  rintro t d n ⟨s, rfl, hs⟩ hn
  obtain ⟨bs, s', rest, hr, hd, hnil, hs'⟩ := hs.read hn
  exact ⟨bs, f s', rest, by rw [hf, hr]; rfl, hd, hnil, s', rfl, hs'⟩

/-- Reads passed on lead to states passed on. -/
theorem Reached.of_map {s : σ} {t : τ} (f : σ → τ)
    (hf : ∀ s n, InputSource.read (f s) n = (InputSource.read s n).map id f)
    (h : Reached (f s) t) : ∃ s', t = f s' ∧ Reached s s' := by
  induction h with
  | start => exact ⟨s, rfl, .start⟩
  | @read t' t'' n bs _ hr ih =>
      obtain ⟨s', rfl, hs'⟩ := ih
      rw [hf] at hr
      rcases hr' : InputSource.read s' n with ⟨outcome, s''⟩
      rw [hr'] at hr
      obtain ⟨rfl, rfl⟩ := Prod.mk.inj hr
      exact ⟨s'', rfl, hs'.read hr'⟩

/-- What a source is read through can be closed, if it passes reads and closing on. -/
theorem Closable.map {s : σ} (f : σ → τ)
    (hf : ∀ s n, InputSource.read (f s) n = (InputSource.read s n).map id f)
    (hc : ∀ s, InputSource.close (f s) = (InputSource.close s).map id f)
    (h : Closable s) : Closable (f s) := by
  intro t ht
  obtain ⟨s', rfl, hs'⟩ := ht.of_map f hf
  rw [hc]
  exact h s' hs'

end

/-! ### Sources over known bytes -/

/-- Taking bytes off the front leaves nothing out, and takes none only at the end. -/
theorem take_delivers (d : Bytes) {n : Nat} (hn : 0 < n) :
    d = d.take n ++ d.drop n ∧ (d.take n = [] → d = []) := by
  refine ⟨(List.take_append_drop n d).symm, ?_⟩
  intro h
  rcases List.take_eq_nil_iff.mp h with h0 | hd
  · omega
  · exact hd

/-- An open source over bytes in memory delivers them. -/
theorem delivers_memory (d description : Bytes) :
    Delivers ({ rest := d, description } : MemorySource) d := by
  refine ⟨fun s d => s.rest = d ∧ s.isOpen = true, ?_, rfl, rfl⟩
  rintro s d n ⟨rfl, ho⟩ hn
  obtain ⟨hd, hnil⟩ := take_delivers s.rest hn
  exact ⟨_, _, s.rest.drop n, MemorySource.read_open n ho, hd, hnil, rfl, ho⟩

theorem closable_memory (s : MemorySource) : Closable s := fun _ _ => rfl

/-- A stream that can be read, with the bytes it has left. The marks of an ended stream come
together, and only one with nothing left carries them. -/
structure StreamSource.Intact (s : StreamSource) (d : Bytes) : Prop where
  stream : s.stream = some d
  notBroken : s.isBroken = false
  marks : s.isFailed = s.isEnded
  ended : s.isEnded = true → d = []

/-- **A read of an intact stream** answers the next bytes, as many as were asked for or as there
are, whether or not the end was met before, and leaves the stream intact. -/
theorem StreamSource.Intact.read {s : StreamSource} {d : Bytes} (h : s.Intact d) (n : Nat) :
    ∃ s' : StreamSource, InputSource.read s n = (.ok (d.take n), s') ∧ s'.Intact (d.drop n) ∧
      s'.description = s.description := by
  cases he : s.isEnded with
  | true =>
      -- nothing is left, so an answer of nothing is the next bytes
      obtain rfl := h.ended he
      refine ⟨s, ?_, ?_, rfl⟩
      · simp [InputSource.read, StreamSource.read, h.stream, he]
      · rwa [List.drop_nil]
  | false =>
      have hgood : s.isGood = true := by simp [isGood, h.notBroken, h.marks, he]
      refine ⟨{ s with stream := some (d.drop n), isEnded := decide (d.length < n),
                       isFailed := decide (d.length < n) }, ?_, ⟨rfl, h.notBroken, rfl, ?_⟩, rfl⟩
      · simp [InputSource.read, StreamSource.read, extract, h.stream, he, hgood, h.notBroken]
      · intro hshort
        exact List.drop_eq_nil_of_le (Nat.le_of_lt (of_decide_eq_true hshort))

/-- A stream that nothing has happened to is intact. -/
theorem intact_stream (d description : Bytes) :
    ({ stream := some d, description } : StreamSource).Intact d :=
  ⟨rfl, rfl, rfl, fun h => Bool.noConfusion h⟩

/-- An intact stream delivers its bytes. -/
theorem delivers_stream (d description : Bytes) :
    Delivers ({ stream := some d, description } : StreamSource) d := by
  refine ⟨fun s d => s.Intact d, ?_, intact_stream d description⟩
  intro s d n h hn
  obtain ⟨hd, hnil⟩ := take_delivers d hn
  obtain ⟨s', hr, h', -⟩ := h.read n
  exact ⟨d.take n, s', d.drop n, hr, hd, hnil, h'⟩

theorem closable_stream (s : StreamSource) : Closable s := fun _ _ => rfl

/-- A path with contents leads to a regular file. -/
theorem resolve_of_contentAt? {files : FileSystem} {path d : Bytes}
    (h : files.contentAt? path = some d) :
    ∃ place number, files.resolve path = .ok (place, .file number) ∧ files.content number = d := by
  rw [FileSystem.contentAt?] at h
  split at h
  · rename_i place number hr
    exact ⟨place, number, hr, Option.some.inj h⟩
  · cases h

/-- A regular file is opened as a descriptor at its start. -/
theorem openPath_of_contentAt? {files : FileSystem} {path d : Bytes}
    (h : files.contentAt? path = some d) : ∃ number, files.content number = d ∧
      FileSource.openPath files path = .ok ⟨files, some (.file number 0), path⟩ := by
  obtain ⟨place, number, hr, hd⟩ := resolve_of_contentAt? h
  exact ⟨number, hd, by simp [FileSource.openPath, hr]⟩

/-- A read from a regular file moves the offset on by what it answers. -/
theorem FileSource.read_file {s : FileSource} {number offset : Nat}
    (hs : s.descriptor = some (.file number offset)) (n : Nat) :
    InputSource.read s n = (.ok (((s.files.content number).drop offset).take n),
      { s with descriptor := some (.file number
        (offset + (((s.files.content number).drop offset).take n).length)) }) := by
  simp only [InputSource.read, FileSource.read, hs, FileSource.rest]

/-- What is left after the bytes a read took is what is left after the bytes it asked for. -/
theorem drop_length_take (d : Bytes) (n : Nat) : d.drop (d.take n).length = d.drop n := by
  rcases Nat.le_total n d.length with h | h
  · rw [List.length_take, Nat.min_eq_left h]
  · rw [List.take_of_length_le h, List.drop_length, List.drop_eq_nil_of_le h]

/-- A descriptor at the start of a regular file delivers the contents of the file. -/
theorem delivers_file (files : FileSystem) (number : Nat) (description : Bytes) :
    Delivers (⟨files, some (.file number 0), description⟩ : FileSource)
      (files.content number) := by
  refine ⟨fun s d => ∃ number offset, s.descriptor = some (.file number offset) ∧
    d = (s.files.content number).drop offset, ?_, number, 0, rfl, rfl⟩
  rintro s d n ⟨number, offset, hs, rfl⟩ hn
  obtain ⟨hd, hnil⟩ := take_delivers ((s.files.content number).drop offset) hn
  refine ⟨_, _, _, FileSource.read_file hs n, hd, hnil, number, _, rfl, ?_⟩
  rw [← List.drop_drop, drop_length_take]

/-- A descriptor on a regular file stays one while it is read, and can be closed. -/
theorem closable_file (files : FileSystem) (number offset : Nat) (description : Bytes) :
    Closable (⟨files, some (.file number offset), description⟩ : FileSource) := by
  intro s' h
  have hs : ∃ number offset, s'.descriptor = some (.file number offset) := by
    induction h with
    | start => exact ⟨number, offset, rfl⟩
    | read _ hr ih =>
        obtain ⟨number, offset, hd⟩ := ih
        rw [FileSource.read_file hd] at hr
        cases hr
        exact ⟨number, _, rfl⟩
  obtain ⟨number, offset, hd⟩ := hs
  simp [InputSource.close, FileSource.close, hd]

end DoctypeProbe
