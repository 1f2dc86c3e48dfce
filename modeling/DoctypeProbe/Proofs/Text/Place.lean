import DoctypeProbe.Proofs.Text.Calls

/-!
# The Place of a Reader

Every byte that a reader hands out has been delivered by its source. Over a source of which
nothing is known, `place` says where in the bytes delivered the next line of a reader begins:
behind everything that has been handed out, and also behind the line feed that belongs to a
carriage return, even if that line feed is delivered later.

A call that answers a line moves the place behind the line and what ends it. A call that fails
puts the last block back, to the front of which the reader then returns. That leaves the place
where it was, or moves it on, if all of the block belongs to the line being gathered. If there
is a terminator in the block, some of it has been handed out before, and the place moves back.

## Main results

* `LineReader.Gathered.kept`: what one call keeps of a reader.
* `LineReader.Gathered.passage`: how one call moves the place of a reader.
-/

namespace DoctypeProbe

namespace LineReader

open Lines

/-! ### The place of a reader -/

variable {σ : Type}

/-- Where a reader stands in its last block: in front of all of it, as at the start and when it
has been put back; behind a terminator in it; or at the end of the source. -/
inductive Standing (r : LineReader σ) : Prop
  | whole : r.unread = r.block → r.atEnd = false → (r.afterReturn = true → Ascii.cr ∈ r.block) →
      Standing r
  | behind {x : Bytes} {t : Byte} : r.block = x ++ t :: r.unread → isTerminator t = true →
      r.afterReturn = (t == Ascii.cr) → r.atEnd = false → Standing r
  | ended : r.atEnd = true → r.block = [] → r.unread = [] → Standing r

/-- Some of the last block has been handed out: a terminator, and what stands before it. -/
def Behind (r : LineReader σ) : Prop :=
  ∃ x t, r.block = x ++ t :: r.unread ∧ isTerminator t = true

/-- A reader in front of all of its last block is not behind some of it. -/
theorem not_behind {r : LineReader σ} (h : r.unread = r.block) : ¬ Behind r := by
  rintro ⟨x, t, hb, -⟩
  have hlen := congrArg List.length hb
  rw [h, List.length_append, List.length_cons] at hlen
  omega

/-- What is kept of a reader over a source with a record. -/
structure Kept (r : LineReader (Recorded σ)) : Prop where
  suffix : r.block <:+ r.source.delivered
  standing : Standing r

theorem Standing.unread_suffix {r : LineReader σ} (h : Standing r) : r.unread <:+ r.block := by
  cases h with
  | whole hu => exact hu ▸ List.suffix_refl _
  | behind hb => exact hb ▸ (List.suffix_cons _ _).trans (List.suffix_append _ _)
  | ended _ _ hu => exact hu ▸ List.nil_suffix

/-- Nothing is in front of a reader at the end of its source. -/
theorem Standing.nil_of_atEnd {r : LineReader σ} (h : Standing r) (he : r.atEnd = true) :
    r.block = [] ∧ r.unread = [] := by
  cases h with
  | whole _ he' => exact absurd he (by simp [he'])
  | behind _ _ _ he' => exact absurd he (by simp [he'])
  | ended _ hb hu => exact ⟨hb, hu⟩

theorem Kept.unread_suffix {r : LineReader (Recorded σ)} (h : Kept r) :
    r.unread <:+ r.source.delivered :=
  h.standing.unread_suffix.trans h.suffix

theorem kept_over (s : σ) (charset : Charset) (bufferSize : Nat) :
    Kept (LineReader.over ({ inner := s } : Recorded σ) charset bufferSize) :=
  ⟨List.nil_suffix, .whole rfl rfl fun h => nomatch h⟩

/-- Counting a line leaves what is kept. -/
theorem Kept.count {r : LineReader (Recorded σ)} (h : Kept r) (n : Nat) :
    Kept { r with lineNumber := n } := by
  obtain ⟨hs, hst⟩ := h
  refine ⟨hs, ?_⟩
  cases hst with
  | whole hu he hcr => exact .whole hu he hcr
  | behind hb ht har he => exact .behind hb ht har he
  | ended he hb hu => exact .ended he hb hu

/-- What of some delivered bytes is in front of a reader. -/
def upcoming (d : Bytes) (r : LineReader (Recorded σ)) : Bytes :=
  resume r.afterReturn (d.drop (r.source.delivered.length - r.unread.length))

/-- Where in the delivered bytes the next line of a reader begins. -/
def place (d : Bytes) (r : LineReader (Recorded σ)) : Nat := d.length - (upcoming d r).length

theorem upcoming_eq {r : LineReader (Recorded σ)} (hs : r.unread <:+ r.source.delivered)
    (later : Bytes) :
    upcoming (r.source.delivered ++ later) r = resume r.afterReturn (r.unread ++ later) := by
  obtain ⟨x, hx⟩ := hs
  have hlen : r.source.delivered.length - r.unread.length = x.length := by
    rw [← hx, List.length_append, Nat.add_sub_cancel]
  rw [upcoming, hlen, ← hx, List.append_assoc, List.drop_left]

theorem upcoming_suffix (d : Bytes) (r : LineReader (Recorded σ)) : upcoming d r <:+ d :=
  (resume_suffix _ _).trans (List.drop_suffix _ d)

/-- From the place of a reader on there is what is in front of it. -/
theorem drop_place (d : Bytes) (r : LineReader (Recorded σ)) : d.drop (place d r) = upcoming d r :=
  (List.suffix_iff_eq_drop.mp (upcoming_suffix d r)).symm

theorem place_le_place_iff {d : Bytes} {r r' : LineReader (Recorded σ)} :
    place d r ≤ place d r' ↔ (upcoming d r').length ≤ (upcoming d r).length := by
  have h := (upcoming_suffix d r).length_le
  have h' := (upcoming_suffix d r').length_le
  rw [place, place]
  omega

/-! ### Blocks pulled -/

theorem lastBlock_suffix (block : Bytes) {blocks : List Bytes} (h : blocks ≠ []) :
    lastBlock block blocks <:+ blocks.flatten := by
  induction blocks generalizing block with
  | nil => exact absurd rfl h
  | cons b bs ih =>
      rw [lastBlock, List.flatten_cons]
      rcases bs with - | ⟨c, bs⟩
      · simp [lastBlock]
      · exact (ih b (List.cons_ne_nil c bs)).trans (List.suffix_append b _)

/-- The last block is one of those pulled, or the one before. -/
theorem lastBlock_suffix_append {block : Bytes} {delivered : Bytes} (h : block <:+ delivered)
    (blocks : List Bytes) : lastBlock block blocks <:+ delivered ++ blocks.flatten := by
  by_cases hb : blocks = []
  · rw [hb, List.flatten_nil, List.append_nil]
    exact h
  · exact (lastBlock_suffix block hb).trans (List.suffix_append _ _)

/-! ### A failed read -/

theorem not_unbroken_of_mem {s : Bytes} {t : Byte} (ht : isTerminator t = true) (hs : t ∈ s) :
    ¬ Unbroken s := by
  intro h
  rw [h t hs] at ht
  cases ht

/-- A carriage return is not taken away with the line feed of another one. -/
theorem unbroken_of_resume {afterReturn : Bool} {s : Bytes}
    (h : Unbroken (resume afterReturn s)) (hs : afterReturn = true → Ascii.cr ∈ s) :
    Unbroken s := by
  rcases resume_cases afterReturn s with ⟨he, -⟩ | ⟨har, he⟩
  · exact he ▸ h
  · have hm := hs har
    rw [he, List.mem_cons] at hm
    rcases hm with hm | hm
    · exact absurd hm (by decide)
    · exact absurd h (not_unbroken_of_mem (by decide) hm)

theorem unbroken_of_suffix {s t : Bytes} (h : Unbroken t) (hs : s <:+ t) : Unbroken s :=
  fun b hb => h b (hs.subset hb)

theorem resume_of_unbroken {s : Bytes} (afterReturn : Bool) (h : Unbroken s) :
    resume afterReturn s = s := by
  refine resume_of_head? fun _ hs => ?_
  exact not_unbroken_of_mem (t := Ascii.lf) (by decide) (List.mem_of_mem_head? hs) h

/-- What a failed read puts back, `back`, against what was in front of the reader before. -/
def Moved (r : LineReader σ) (block before back : Bytes) : Prop :=
  (Unbroken block ∧ back.length ≤ before.length) ∨
    (¬ Unbroken block ∧ Behind r ∧ before.length < back.length)

/-- A call that fails at once puts back the block that the reader stands in. -/
theorem moved_of_no_block {r : LineReader σ} (h : Standing r) (he : r.atEnd = false)
    (hub : Unbroken (resume r.afterReturn r.unread)) (later : Bytes) :
    Moved r r.block (resume r.afterReturn (r.unread ++ later))
      (resume (r.afterReturn && r.unread.isEmpty) (r.block ++ later)) := by
  cases h with
  | whole hu _ hcr =>
      have hu' : Unbroken r.unread := unbroken_of_resume hub fun har => hu ▸ hcr har
      refine Or.inl ⟨hu ▸ hu', Nat.le_of_eq ?_⟩
      rw [← hu]
      by_cases hnil : r.unread = []
      · simp [hnil]
      · rw [resume_append hnil, resume_append hnil, resume_of_unbroken _ hu',
          resume_of_unbroken _ hu']
  | @behind x t hb ht har _ =>
      have hmem : t ∈ r.block := by simp [hb]
      refine Or.inr ⟨not_unbroken_of_mem ht hmem, ⟨x, t, hb, ht⟩, ?_⟩
      have hbefore := (resume_suffix r.afterReturn (r.unread ++ later)).length_le
      have hblock := congrArg List.length hb
      simp only [List.length_append, List.length_cons] at hbefore hblock
      rcases resume_cases (r.afterReturn && r.unread.isEmpty) (r.block ++ later) with
        ⟨hback, -⟩ | ⟨har', hback⟩
      · rw [hback, List.length_append]
        omega
      · -- the terminator handed out last is a carriage return, so there is a byte before it
        have hback' := congrArg List.length hback
        obtain ⟨har', -⟩ := Bool.and_eq_true_iff.mp har'
        obtain rfl : t = Ascii.cr := by simpa [har'] using har.symm
        rcases x with - | ⟨c, x⟩
        · rw [hb] at hback
          exact absurd (List.cons.inj hback).1 (by decide)
        · simp only [List.length_append, List.length_cons] at hback' hblock
          omega
  | ended hend => exact absurd hend (by simp [he])

variable [InputSource σ]

/-- A call that pulls blocks and then fails puts back the last of them. -/
theorem moved_of_blocks {r : LineReader σ} (h : Standing r) (he : r.atEnd = false)
    {blocks : List Bytes} {s : σ} (hp : Pulls r.bufferSize r.source blocks s) (hne : blocks ≠ [])
    (hub : Unbroken (resume r.afterReturn (r.unread ++ blocks.flatten))) (later : Bytes) :
    Moved r (lastBlock r.block blocks)
      (resume r.afterReturn (r.unread ++ blocks.flatten ++ later))
      (resume (r.afterReturn && (r.unread ++ blocks.flatten).isEmpty)
        (lastBlock r.block blocks ++ later)) := by
  have htext : r.unread ++ blocks.flatten ≠ [] := fun h =>
    hne (hp.eq_nil_of_flatten (List.append_eq_nil_iff.mp h).2)
  have hsuf : lastBlock r.block blocks <:+ r.unread ++ blocks.flatten :=
    (lastBlock_suffix r.block hne).trans (List.suffix_append _ _)
  rw [resume_append htext, List.isEmpty_eq_false_iff.mpr htext, Bool.and_false, resume_false]
  generalize lastBlock r.block blocks = block at hsuf
  rcases resume_cases r.afterReturn (r.unread ++ blocks.flatten) with ⟨hres, -⟩ | ⟨har, hres⟩
  · rw [hres] at hub ⊢
    have hlen := hsuf.length_le
    refine Or.inl ⟨unbroken_of_suffix hub hsuf, ?_⟩
    simp only [List.length_append] at hlen ⊢
    omega
  · rw [hres] at hsuf
    rcases List.suffix_cons_iff.mp hsuf with hblock | hsuf
    · -- the block begins with the line feed of the terminator handed out last
      refine Or.inr ⟨?_, ?_, ?_⟩
      · exact not_unbroken_of_mem (t := Ascii.lf) (by decide) (by simp [hblock])
      · cases h with
        | whole hu _ hcr =>
            have htext' : Unbroken (r.unread ++ blocks.flatten) :=
              unbroken_of_resume hub fun har => List.mem_append_left _ (hu ▸ hcr har)
            refine absurd htext' (not_unbroken_of_mem (t := Ascii.lf) (by decide) ?_)
            rw [hres]
            exact List.mem_cons_self
        | behind hb ht => exact ⟨_, _, hb, ht⟩
        | ended hend => exact absurd hend (by simp [he])
      · rw [hblock]
        simp
    · have hlen := hsuf.length_le
      refine Or.inl ⟨unbroken_of_suffix hub hsuf, ?_⟩
      simp only [List.length_append]
      omega

/-- A call that fails puts back the last block. -/
theorem moved {r : LineReader σ} (h : Standing r) (he : r.atEnd = false)
    {blocks : List Bytes} {s : σ} (hp : Pulls r.bufferSize r.source blocks s)
    (hub : Unbroken (resume r.afterReturn (r.unread ++ blocks.flatten))) (later : Bytes) :
    Moved r (lastBlock r.block blocks)
      (resume r.afterReturn (r.unread ++ blocks.flatten ++ later))
      (resume (r.afterReturn && (r.unread ++ blocks.flatten).isEmpty)
        (lastBlock r.block blocks ++ later)) := by
  by_cases hne : blocks = []
  · subst hne
    rw [List.flatten_nil, List.append_nil] at hub ⊢
    exact moved_of_no_block h he hub later
  · exact moved_of_blocks h he hp hne hub later

/-! ### One call -/

/-- **What one call keeps**: the reader stands in a block of what its source has delivered, which
only grows, and not at all once the source has come to its end. -/
theorem Gathered.kept {raw : Bytes} {r r' : LineReader (Recorded σ)}
    {out : Except IoError (Option Bytes)} (hg : Gathered raw r out r') (h : Kept r) :
    Kept r' ∧ ∃ fresh, r'.source.delivered = r.source.delivered ++ fresh ∧
      (r.atEnd = true → fresh = [] ∧ r'.atEnd = true) := by
  cases hg with
  | @line blocks s line t rest hp hend ht hl hterm hsuf =>
      have hdel := Recorded.delivered_of_pulls hp
      have hsuf' : t :: rest <:+ lastBlock r.block blocks := by
        rcases blocks with - | ⟨block, blocks⟩
        · exact hsuf.trans h.standing.unread_suffix
        · exact hsuf
      obtain ⟨x, hx⟩ := hsuf'
      have he : r.atEnd = false := by
        rw [← Bool.not_eq_true]
        intro he
        rw [hend he, lastBlock, (h.standing.nil_of_atEnd he).2] at hsuf
        exact absurd hsuf.length_le (by simp)
      refine ⟨⟨?_, .behind hx.symm hterm rfl he⟩, blocks.flatten, hdel, fun he' => ?_⟩
      · exact hdel ▸ lastBlock_suffix_append h.suffix blocks
      · exact absurd he' (by simp [he])
  | exhausted he hub =>
      have hb := (h.standing.nil_of_atEnd he).1
      exact ⟨⟨h.suffix, .ended he hb rfl⟩, [], (List.append_nil _).symm, fun _ => ⟨rfl, he⟩⟩
  | @ended blocks s s' hp he hr hub =>
      have hdel := Recorded.delivered_of_pulls_end hp hr
      refine ⟨⟨List.nil_suffix, .ended rfl rfl rfl⟩, blocks.flatten, hdel, fun he' => ?_⟩
      exact absurd he' (by simp [he])
  | @failed blocks s s' e hp he hr hub =>
      have hdel := Recorded.delivered_of_pulls_error hp hr
      refine ⟨⟨?_, .whole rfl he fun har => ?_⟩, blocks.flatten, hdel, fun he' => ?_⟩
      · exact hdel ▸ lastBlock_suffix_append h.suffix blocks
      · -- nothing was in front of the reader, so it stands behind a carriage return
        obtain ⟨hreturn, hnil⟩ := Bool.and_eq_true_iff.mp har
        obtain rfl := hp.eq_nil_of_flatten (List.append_eq_nil_iff.mp (List.isEmpty_iff.mp hnil)).2
        change Ascii.cr ∈ r.block
        cases h.standing with
        | whole _ _ hcr => exact hcr hreturn
        | behind hb _ hat =>
            rw [hb, ← beq_iff_eq.mp (hat.symm.trans hreturn)]
            simp
        | ended he' => exact absurd he' (by simp [he])
      · exact absurd he' (by simp [he])

/-- How one call moves a reader in front of the delivered bytes `d`.

* `line`: behind a line and all of what ends it.
* `last`: behind the unterminated last line.
* `none`: nowhere, at the end.
* `held`: a read failed, and the last block has no terminator in it; the reader is not moved
  back.
* `back`: a read failed, and there is a terminator in the last block, of which some had been
  handed out; the reader is moved back. -/
inductive Passage (d : Bytes) (r : LineReader (Recorded σ)) :
    Except ReadError (Option Bytes) → LineReader (Recorded σ) → Prop
  | line {raw brk : Bytes} {r' : LineReader (Recorded σ)} :
      upcoming d r = raw ++ brk ++ upcoming d r' → Unbroken raw → Break brk (upcoming d r') →
      Passage d r (decoded r.charset raw) r'
  | last {raw : Bytes} {r' : LineReader (Recorded σ)} :
      upcoming d r = raw → Unbroken raw → raw ≠ [] → upcoming d r' = [] →
      Passage d r (decoded r.charset raw) r'
  | none {r' : LineReader (Recorded σ)} : upcoming d r' = [] → r'.block = [] →
      Passage d r (.ok .none) r'
  | held {e : IoError} {r' : LineReader (Recorded σ)} : r'.unread = r'.block →
      Unbroken r'.block → (upcoming d r').length ≤ (upcoming d r).length →
      Passage d r (.error (.io e)) r'
  | back {e : IoError} {r' : LineReader (Recorded σ)} : r'.unread = r'.block →
      ¬ Unbroken r'.block → Behind r → (upcoming d r).length < (upcoming d r').length →
      Passage d r (.error (.io e)) r'

/-- **How gathering a line moves a reader**, seen from any bytes that go on behind those
delivered, as they can only if the source has not come to its end. -/
theorem Gathered.passage {r r' : LineReader (Recorded σ)} {out : Except IoError (Option Bytes)}
    (hg : Gathered [] r out r') (h : Kept r) {later : Bytes}
    (hlater : r'.atEnd = true → later = []) (n : Nat) :
    Passage (r'.source.delivered ++ later) r (answer r.charset out)
      { r' with lineNumber := n } := by
  have hbefore : ∀ blocks : List Bytes,
      upcoming (r.source.delivered ++ blocks.flatten ++ later) r =
        resume r.afterReturn (r.unread ++ blocks.flatten ++ later) := fun blocks => by
    rw [List.append_assoc, upcoming_eq h.unread_suffix, ← List.append_assoc]
  have hafter := upcoming_eq (hg.kept h).1.unread_suffix later
  cases hg with
  | @line blocks s line t rest hp hend ht hl hterm hsuf =>
      have hne : r.unread ++ blocks.flatten ≠ [] := fun h => by simp [h] at ht
      obtain ⟨brk, hbrk, hb⟩ := exists_break_resume hterm (rest ++ later)
      refine Passage.line ?_ hl (hafter ▸ hb)
      refine Eq.trans ?_ (congrArg _ hafter.symm)
      rw [Recorded.delivered_of_pulls hp, hbefore, resume_append hne, ht, List.append_assoc,
        List.cons_append, hbrk, List.nil_append, List.append_assoc]
  | exhausted he hub =>
      obtain rfl : later = [] := hlater he
      obtain ⟨hb, hu⟩ := h.standing.nil_of_atEnd he
      have hout : unterminated ([] ++ resume r.afterReturn r.unread) = none := by
        rw [hu, resume_nil]
        rfl
      rw [hout]
      exact Passage.none (hafter.trans (resume_nil _)) hb
  | @ended blocks s s' hp he hr hub =>
      obtain rfl : later = [] := hlater rfl
      have hdel := Recorded.delivered_of_pulls_end hp hr
      have hup : upcoming (s'.delivered ++ []) r =
          resume r.afterReturn (r.unread ++ blocks.flatten) := by
        rw [hdel, hbefore, List.append_nil]
      have hend := hafter.trans (resume_nil _)
      rw [List.nil_append, unterminated]
      rcases hraw : resume r.afterReturn (r.unread ++ blocks.flatten) with - | ⟨b, bs⟩
      · exact Passage.none hend rfl
      · exact Passage.last (hup.trans hraw) (hraw ▸ hub) (List.cons_ne_nil b bs) hend
  | @failed blocks s s' e hp he hr hub =>
      have hdel := Recorded.delivered_of_pulls_error hp hr
      have hmoved := moved h.standing he hp hub later
      rw [← hbefore, ← hdel] at hmoved
      rcases hmoved with ⟨hb, hle⟩ | ⟨hb, hbehind, hlt⟩
      · exact Passage.held rfl hb (hafter ▸ hle)
      · exact Passage.back rfl hb hbehind (hafter ▸ hlt)

end LineReader

end DoctypeProbe
