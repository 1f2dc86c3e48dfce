import DoctypeProbe.Proofs.Source.Delivery
import DoctypeProbe.Resource

/-!
# The Length of the Content

The length of a resource is found in three ways: the size of a file is asked of the file system, the
bytes in memory are counted, and a stream is read to its end in blocks. What is read from an opened
resource is a fourth thing. All of them agree: the length is that of the bytes that are read,
however many bytes each read asks for and however many it is given.

A stream may also fail to be closed after it has been measured. It then has no length, although
every byte of it was counted.

## Main results

* `Delivers.readToEnd`: reads of any sizes answer all the bytes of a source.
* `Resource.lengthOf_of_delivers`: so does measuring it.
* `Resource.contentLength_eq_length`: the length of every kind of resource.
-/

namespace DoctypeProbe

namespace InputSource

variable {σ : Type} [InputSource σ]

/-- Reads a source to its end and answers all the bytes delivered, or the first failure. Read
number `k`, counted from zero, asks for `sizes k` bytes. -/
def readToEnd (sizes : Nat → Nat) (s : σ) : Except IoError Bytes × σ :=
  match _h : InputSource.read s (sizes 0) with
  | (.error e, s') => (.error e, s')
  | (.ok [], s') => (.ok [], s')
  | (.ok (b :: bs), s') =>
    let (outcome, s'') := readToEnd (fun k => sizes (k + 1)) s'
    (outcome.map (b :: bs ++ ·), s'')
termination_by InputSource.remaining s
decreasing_by exact remaining_lt ‹_›

theorem readToEnd_of_error {sizes : Nat → Nat} {s s' : σ} {e : IoError}
    (h : InputSource.read s (sizes 0) = (.error e, s')) : readToEnd sizes s = (.error e, s') := by
  rw [readToEnd]
  split <;> rename_i hr <;> rw [h] at hr <;> cases hr
  rfl

theorem readToEnd_of_end {sizes : Nat → Nat} {s s' : σ}
    (h : InputSource.read s (sizes 0) = (.ok [], s')) : readToEnd sizes s = (.ok [], s') := by
  rw [readToEnd]
  split <;> rename_i hr <;> rw [h] at hr <;> cases hr
  rfl

theorem readToEnd_of_read {sizes : Nat → Nat} {s s' : σ} {b : Byte} {bs : Bytes}
    (h : InputSource.read s (sizes 0) = (.ok (b :: bs), s')) :
    readToEnd sizes s = (readToEnd (fun k => sizes (k + 1)) s').map (·.map (b :: bs ++ ·)) id := by
  rw [readToEnd]
  split <;> rename_i hr <;> rw [h] at hr <;> cases hr
  rfl

/-- Draining a source asks for blocks of one size. -/
theorem drain_eq_readToEnd (block : Nat) (s : σ) :
    drain block s = readToEnd (fun _ => block) s := by
  fun_induction drain block s with
  | case1 s e s' hr => exact (readToEnd_of_error hr).symm
  | case2 s s' hr => exact (readToEnd_of_end hr).symm
  | case3 s b bs s' hr e s'' hdrain ih => rw [readToEnd_of_read hr, ← ih, hdrain]; rfl
  | case4 s b bs s' hr more s'' hdrain ih => rw [readToEnd_of_read hr, ← ih, hdrain]; rfl

end InputSource

variable {σ : Type} [InputSource σ]

/-- **Reads of any sizes** answer all the bytes of a source. -/
theorem Delivers.readToEnd {s : σ} {d : Bytes} (h : Delivers s d) {sizes : Nat → Nat}
    (hsizes : ∀ k, 0 < sizes k) :
    ∃ s', InputSource.readToEnd sizes s = (.ok d, s') ∧ Reached s s' := by
  fun_induction InputSource.readToEnd sizes s generalizing d with
  | case1 sizes s e s' hr =>
      obtain ⟨bs, s'', rest, hr', -⟩ := h.read (hsizes 0)
      rw [hr] at hr'
      cases hr'
  | case2 sizes s s' hr =>
      obtain ⟨bs, s'', rest, hr', -, hnil, -⟩ := h.read (hsizes 0)
      rw [hr] at hr'
      cases hr'
      obtain rfl := hnil rfl
      exact ⟨s', rfl, .read .start hr⟩
  | case3 sizes s b bs s' hr outcome s'' hrest ih =>
      obtain ⟨_, _, rest, hr', rfl, -, hs'⟩ := h.read (hsizes 0)
      rw [hr] at hr'
      cases hr'
      obtain ⟨t, ht, hreached⟩ := ih hs' fun k => hsizes (k + 1)
      rw [hrest] at ht
      cases ht
      exact ⟨s'', rfl, (Reached.read .start hr).trans hreached⟩

/-! ### Measuring -/

namespace Resource

/-- Opening a resource and reading the source to its end delivers `d`. -/
def Yields (files : FileSystem) (sizes : Nat → Nat) (r : Resource σ) (d : Bytes) : Prop :=
  ∃ source r' source', r.openSource files = (.ok source, r') ∧
    InputSource.readToEnd sizes source = (.ok d, source')

/-- A resource that opens as a source that delivers `d` yields it. -/
theorem yields_of_delivers {files : FileSystem} {sizes : Nat → Nat} (hsizes : ∀ k, 0 < sizes k)
    {r r' : Resource σ} {source : Opened σ} {d : Bytes} (h : r.openSource files = (.ok source, r'))
    (hd : Delivers source d) : r.Yields files sizes d := by
  obtain ⟨source', hread, -⟩ := hd.readToEnd hsizes
  exact ⟨source, r', source', h, hread⟩

/-- **Measuring a source** counts all its bytes. What it answers then is up to closing. -/
theorem lengthOf_of_delivers {source : Opened σ} {d : Bytes} (h : Delivers source d) :
    ∃ source', Reached source source' ∧
      lengthOf source = ((InputSource.close source').1.map fun _ => d.length).mapError .io := by
  have hblock : 0 < measureBlock := by decide
  obtain ⟨source', hread, hreached⟩ := h.readToEnd fun _ => hblock
  rw [← InputSource.drain_eq_readToEnd] at hread
  refine ⟨source', hreached, ?_⟩
  simp only [lengthOf, hread]
  rcases (InputSource.close source').1 with e | _ <;> rfl

/-- The length of a stream that delivers `d`, unless it fails to be closed. -/
theorem contentLength_of_delivers {s : σ} {d : Bytes} (h : Delivers s d) (files : FileSystem)
    (label : Bytes) :
    ∃ s', Reached s s' ∧ (contentLength files (.stream (some s) label)).1 =
      ((InputSource.close s').1.map fun _ => d.length).mapError .io := by
  obtain ⟨source', hreached, hlength⟩ :=
    lengthOf_of_delivers (h.map (Opened.stream (σ := σ)) fun _ _ => rfl)
  obtain ⟨s', rfl, hs'⟩ := hreached.of_map Opened.stream fun _ _ => rfl
  exact ⟨s', hs', hlength⟩

/-- A stream that delivers `d` and can be closed has the length of `d`. -/
theorem contentLength_of_closable {s : σ} {d : Bytes} (h : Delivers s d) (hclose : Closable s)
    (files : FileSystem) (label : Bytes) :
    (contentLength files (.stream (some s) label)).1 = .ok d.length := by
  obtain ⟨s', hreached, hlength⟩ := contentLength_of_delivers h files label
  rw [hlength, hclose s' hreached]
  rfl

/-- The size of a regular file is that of its contents. -/
theorem fileSize_of_contentAt? {files : FileSystem} {path d : Bytes}
    (h : files.contentAt? path = some d) : files.fileSize path = .ok d.length := by
  obtain ⟨place, number, hr, rfl⟩ := resolve_of_contentAt? h
  simp only [FileSystem.fileSize, hr]

/-- **The length of the content** is that of the bytes that are read from the opened resource, by
reads of any sizes: for regular files, for bytes in memory, and for sources in memory and over
streams that have been wrapped before anything was read. Any other source that delivers its bytes is
measured by them as well, unless it fails to be closed after that. -/
theorem contentLength_eq_length (d : Bytes) (files : FileSystem) (sizes : Nat → Nat)
    (hsizes : ∀ k, 0 < sizes k) :
    (∀ {σ : Type} [InputSource σ] (path : Path), files.contentAt? path.text = some d →
      Yields files sizes (.file path : Resource σ) d ∧
        (contentLength files (.file path : Resource σ)).1 = .ok d.length) ∧
    (∀ {σ : Type} [InputSource σ] label,
      Yields files sizes (.bytes d label : Resource σ) d ∧
        (contentLength files (.bytes d label : Resource σ)).1 = .ok d.length) ∧
    (∀ description label,
      let source : MemorySource := { rest := d, description }
      Yields files sizes (.stream (some source) label) d ∧
        (contentLength files (.stream (some source) label)).1 = .ok d.length) ∧
    (∀ description label,
      let source : StreamSource := { stream := some d, description }
      Yields files sizes (.stream (some source) label) d ∧
        (contentLength files (.stream (some source) label)).1 = .ok d.length) ∧
    (∀ {σ : Type} [InputSource σ] (s : σ) label, Delivers s d →
      Yields files sizes (.stream (some s) label) d ∧
        ∃ s', Reached s s' ∧ (contentLength files (.stream (some s) label)).1 =
          ((InputSource.close s').1.map fun _ => d.length).mapError .io) := by
  have hstream : ∀ {σ : Type} [InputSource σ] (s : σ) label, Delivers s d →
      Yields files sizes (.stream (some s) label) d := fun s label h =>
    yields_of_delivers hsizes rfl (h.map Opened.stream fun _ _ => rfl)
  refine ⟨fun path h => ?_, fun label => ?_, fun description label => ?_,
    fun description label => ?_, fun s label h => ⟨hstream s label h, ?_⟩⟩
  · have hsize := fileSize_of_contentAt? h
    obtain ⟨number, rfl, ho⟩ := openPath_of_contentAt? h
    have hopen : ∀ {σ : Type}, openSource files (.file path : Resource σ) =
        (.ok (.file ⟨files, some (.file number 0), path.text⟩), .file path) := by
      simp only [openSource, ho, implies_true]
    refine ⟨yields_of_delivers hsizes hopen
      ((delivers_file files number path.text).map Opened.file fun _ _ => rfl), ?_⟩
    rw [contentLength, hsize]
    rfl
  · exact ⟨yields_of_delivers hsizes rfl
      ((delivers_memory d label).map Opened.memory fun _ _ => rfl), rfl⟩
  · have h := delivers_memory d description
    exact ⟨hstream _ label h, contentLength_of_closable h (closable_memory _) files label⟩
  · have h := delivers_stream d description
    exact ⟨hstream _ label h, contentLength_of_closable h (closable_stream _) files label⟩
  · exact contentLength_of_delivers h files label

/-- As many bytes as measuring asks for at once, so that the end shows in the next read only. -/
def blockSample : Bytes := List.replicate measureBlock Ascii.space

theorem contentLength_blockSample :
    let files : FileSystem :=
      { entries := [([ascii "f"], .file 0)], contents := [(0, blockSample)] }
    let file : Resource MemorySource := .file (Path.ofText (ascii "f"))
    let source : MemorySource := { rest := blockSample }
    (∀ k, 0 < k + 1) ∧ files.contentAt? (Path.ofText (ascii "f")).text = some blockSample ∧
      Delivers source blockSample ∧
      Yields files (· + 1) file blockSample ∧ (contentLength files file).1 = .ok 4096 ∧
      Yields files (· + 1) (.stream (some source) []) blockSample ∧
      (contentLength files (.stream (some source) [])).1 = .ok 4096 := by
  intro files file source
  have hlength : blockSample.length = 4096 := List.length_replicate
  have hcontent : files.contentAt? (Path.ofText (ascii "f")).text = some blockSample := rfl
  have hdelivers : Delivers source blockSample := delivers_memory blockSample _
  obtain ⟨hfile, -, hmemory, -, hany⟩ :=
    contentLength_eq_length blockSample files (· + 1) Nat.succ_pos
  rw [hlength] at hfile hmemory
  exact ⟨Nat.succ_pos, hcontent, hdelivers, (hfile _ hcontent).1, (hfile _ hcontent).2,
    (hany source [] hdelivers).1, (hmemory _ []).2⟩

end Resource

end DoctypeProbe
