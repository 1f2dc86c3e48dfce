import DoctypeProbe.Proofs.Detector.Run
import DoctypeProbe.Source.Memory
import DoctypeProbe.Source.Metered
import Mathlib.Algebra.Order.Floor.Div

/-!
# How Much of a Document Is Read

A detection reads no more than it must. The first line that decides, or does not decode, is
known as such as soon as the first byte of its terminator is there, at an offset that is a
function of the document and its charset (`DecidedAt`); the line feed behind a carriage return
is not waited for. Reads come in blocks, so a detection makes as many reads as there are blocks
up to this offset. A document without such a line, or with one that nothing terminates, is read
to its end, which takes one more read that finds nothing, and only one.

## Main results

* `Detector.terminatedDecision_take_eq_none_iff`: what a document has decided by each offset.
* `Detector.pulls_readOff`: reads of bytes in memory, of which there is one way to go.
* `Detector.exists_isLeast_enough`: the blocks that a detection takes, and what it leaves.
* `Detector.detect_reads`: the number of reads of a detection, and of the bytes they take.
-/

namespace DoctypeProbe

namespace Lines

/-- A line with what ends it is complete. -/
theorem complete_append_break {line brk rest : Bytes} (hb : Break brk rest) :
    Complete (line ++ brk) := by
  cases hb <;> simp [Complete, isTerminator_iff]

/-- The first terminated line of a text. -/
theorem ofText_finished_line {line brk rest : Bytes} (hl : Unbroken line) (hb : Break brk rest) :
    ofText (finished (line ++ brk ++ rest)) = line :: ofText (finished rest) := by
  obtain ⟨tail, hrest⟩ := exists_finished_append rest
  rw [finished_append_of_complete (complete_append_break hb),
    ofText_append hl (Break.of_append (hrest ▸ hb))]

/-- Less than a line and the first byte of its terminator is no terminated line. -/
theorem ofText_finished_take {line : Bytes} (hl : Unbroken line) (s : Bytes) {m : Nat}
    (hm : m ≤ line.length) : ofText (finished ((line ++ s).take m)) = [] := by
  rw [List.take_append_of_le_length hm,
    finished_of_unbroken fun b hb => hl b (List.mem_of_mem_take hb)]
  rfl

/-- A line with the first byte of its terminator is a terminated line. -/
theorem ofText_finished_take_succ {line : Bytes} (hl : Unbroken line) {t : Byte}
    (ht : isTerminator t = true) (s : Bytes) (k : Nat) :
    ofText (finished ((line ++ t :: s).take (line.length + (k + 1)))) =
      line :: ofText (resume (t == Ascii.cr) (finished (s.take k))) := by
  rw [List.take_length_add_append, List.take_succ_cons, finished_append_terminator ht,
    ofText_append_terminator hl ht]

end Lines

namespace Detector

open Lines

/-! ### Where a document is decided -/

/-- The first line of a document that decides, or does not decode, is terminated, and the first
byte of its terminator ends at an offset. The lines before it decide nothing.

* `here`: it is the first line.
* `later`: it is a line behind the first one, which hands on whether a comment is open. -/
inductive DecidedAt [Alphabet] (charset : Charset) : Bool → Bytes → Nat → Prop
  | here {inside : Bool} {line rest : Bytes} {t : Byte} {mode : Mode} :
      Unbroken line → isTerminator t = true → advanceLine charset inside line = .error mode →
      DecidedAt charset inside (line ++ t :: rest) (line.length + 1)
  | later {inside inside' : Bool} {line brk rest : Bytes} {e : Nat} :
      Unbroken line → Break brk rest → advanceLine charset inside line = .ok inside' →
      DecidedAt charset inside' rest e →
      DecidedAt charset inside (line ++ brk ++ rest) ((line ++ brk).length + e)

section

variable [Alphabet] {charset : Charset} {inside : Bool}

/-- **What the front of a document has decided**: nothing, if it ends before the offset. -/
theorem DecidedAt.take_eq_none_iff {d : Bytes} {e : Nat} (h : DecidedAt charset inside d e)
    (m : Nat) :
    decided (advance charset inside (ofText (finished (d.take m)))) = none ↔ m < e := by
  induction h generalizing m with
  | @here inside line rest t mode hl ht hmode =>
      rcases Nat.lt_or_ge line.length m with hlt | hle
      · obtain ⟨k, rfl⟩ : ∃ k, m = line.length + (k + 1) := ⟨m - line.length - 1, by omega⟩
        rw [ofText_finished_take_succ hl ht, advance_cons, hmode]
        exact iff_of_false (fun hn => nomatch hn) (by omega)
      · rw [ofText_finished_take hl _ hle]
        exact iff_of_true rfl (by omega)
  | @later inside inside' line brk rest e hl hb hi _ ih =>
      rcases Nat.lt_or_ge m (line ++ brk).length with hlt | hle
      · -- the front holds no more than the line and a part of what ends it
        refine iff_of_true ?_ (by omega)
        rcases Nat.lt_or_ge line.length m with hlt' | hle
        · cases hb with
          | returnLineFeed =>
              obtain rfl : m = line.length + (0 + 1) := by
                simp only [List.length_append, List.length_cons, List.length_nil] at hlt
                omega
              rw [List.append_assoc, List.cons_append, ofText_finished_take_succ hl rfl,
                List.take_zero, advance_cons, hi]
              rfl
          | _ =>
              simp only [List.length_append, List.length_cons, List.length_nil] at hlt
              omega
        · rw [List.append_assoc, ofText_finished_take hl _ hle]
          rfl
      · obtain ⟨k, rfl⟩ : ∃ k, m = (line ++ brk).length + k := ⟨m - (line ++ brk).length, by omega⟩
        have hb' : Break brk (rest.take k) :=
          Break.of_append (t := rest.drop k) (by rwa [List.take_append_drop])
        rw [List.take_length_add_append, ofText_finished_line hl hb', advance_cons, hi]
        exact (ih k).trans (by omega)

/-- A terminated line that decides has an offset at which it does. -/
theorem exists_decidedAt {d : Bytes}
    (h : decided (advance charset inside (ofText (finished d))) ≠ none) :
    ∃ e, DecidedAt charset inside d e := by
  induction d using Lines.inductionOn generalizing inside with
  | nil => exact absurd rfl h
  | last line _ hl =>
      rw [finished_of_unbroken hl] at h
      exact absurd rfl h
  | line line brk rest hl hb ih =>
      rw [ofText_finished_line hl hb, advance_cons] at h
      cases hline : advanceLine charset inside line with
      | error mode =>
          obtain ⟨t, s, hs⟩ : ∃ t s, brk ++ rest = t :: s := by
            cases hb <;> exact ⟨_, _, rfl⟩
          have ht : isTerminator t = true := hb.isTerminator_head? t (by rw [hs]; rfl)
          exact ⟨_, by rw [List.append_assoc, hs]; exact .here hl ht hline⟩
      | ok inside' =>
          rw [hline] at h
          obtain ⟨e, he⟩ := ih h
          exact ⟨_, .later hl hb hline he⟩

end

/-- **What a document has decided by each offset**: nothing before the first line that decides
has been terminated. -/
theorem terminatedDecision_take_eq_none_iff [Alphabet] {charset : Charset} {d : Bytes} {e : Nat}
    (h : DecidedAt charset false d e) (m : Nat) :
    terminatedDecision charset (d.take m) = none ↔ m < e := by
  rw [terminatedDecision, findSome?_eq_decided]
  exact h.take_eq_none_iff m

/-- A document is decided at some offset if a terminated line of it decides. -/
theorem exists_decidedAt_iff [Alphabet] {charset : Charset} {d : Bytes} :
    (∃ e, DecidedAt charset false d e) ↔ terminatedDecision charset d ≠ none := by
  constructor
  · rintro ⟨e, h⟩ hn
    have hm := (terminatedDecision_take_eq_none_iff h (max d.length e)).mp
      (by rwa [List.take_of_length_le (Nat.le_max_left _ _)])
    omega
  · intro h
    rw [terminatedDecision, findSome?_eq_decided] at h
    exact exists_decidedAt h

/-! ### Reads of bytes in memory -/

/-- A metered source over bytes in memory, after `k` reads of up to `n` bytes. -/
def readOff (d description : Bytes) (n k : Nat) : Metered MemorySource :=
  { inner := { rest := d.drop (n * k), description }, reads := k,
    consumed := (d.take (n * k)).length }

theorem read_readOff (d description : Bytes) (n k : Nat) :
    InputSource.read (readOff d description n k) n =
      (.ok ((d.drop (n * k)).take n), readOff d description n (k + 1)) := by
  have hr : InputSource.read (readOff d description n k).inner n =
      (.ok ((d.drop (n * k)).take n), { rest := (d.drop (n * k)).drop n, description }) :=
    MemorySource.read_open n rfl
  have hmetered : InputSource.read (readOff d description n k) n = Metered.read _ n := rfl
  rw [hmetered, Metered.read, hr]
  simp only [readOff, List.drop_drop, Nat.mul_succ, List.take_add, List.length_append]

/-- **Reads of bytes in memory** leave off where the blocks pulled end, and each block begins
before the end of the bytes. -/
theorem pulls_readOff {d description : Bytes} {n k : Nat} {blocks : List Bytes}
    {m : Metered MemorySource} (h : Pulls n (readOff d description n k) blocks m) :
    m = readOff d description n (k + blocks.length) ∧
      d.take (n * k) ++ blocks.flatten = d.take (n * (k + blocks.length)) ∧
      (blocks ≠ [] → n * (k + blocks.length - 1) < d.length) := by
  induction blocks generalizing k with
  | nil =>
      cases h
      exact ⟨rfl, List.append_nil _, fun hne => absurd rfl hne⟩
  | cons block blocks ih =>
      cases h with
      | read hr hne hp =>
          rw [read_readOff] at hr
          cases hr
          obtain ⟨hm, hflatten, hlt⟩ := ih hp
          have hk : k + (blocks.length + 1) = k + 1 + blocks.length := by omega
          rw [List.length_cons, hk]
          refine ⟨hm, ?_, fun _ => ?_⟩
          · rw [List.flatten_cons, ← List.append_assoc, ← List.take_add, ← Nat.mul_succ, hflatten]
          · by_cases hb : blocks = []
            · subst hb
              rw [List.length_nil, Nat.add_zero, Nat.add_sub_cancel]
              by_contra hle
              exact hne (by rw [List.drop_eq_nil_of_le (Nat.le_of_not_lt hle), List.take_nil])
            · exact hlt hb

/-- Reads of bytes in memory from their start. -/
theorem pulls_start {d description : Bytes} {n : Nat} {blocks : List Bytes}
    {m : Metered MemorySource} (h : Pulls n (readOff d description n 0) blocks m) :
    m = readOff d description n blocks.length ∧ blocks.flatten = d.take (n * blocks.length) ∧
      (blocks ≠ [] → n * (blocks.length - 1) < d.length) := by
  have hpulls := pulls_readOff h
  rwa [Nat.mul_zero, List.take_zero, List.nil_append, Nat.zero_add] at hpulls

/-- The number of blocks up to an offset. -/
theorem eq_ceilDiv {n e k : Nat} (hn : 0 < n) (hle : e ≤ n * k)
    (hlt : k ≠ 0 → n * (k - 1) < e) : k = e ⌈/⌉ n := by
  refine le_antisymm ?_ ((ceilDiv_le_iff_le_mul hn).mpr hle)
  by_cases hk : k = 0
  · exact hk ▸ Nat.zero_le _
  · have hnot : ¬ e ⌈/⌉ n ≤ k - 1 := fun h =>
      Nat.not_lt.mpr ((ceilDiv_le_iff_le_mul hn).mp h) (hlt hk)
    omega

section

variable [Alphabet]

/-! ### Reads of a detection -/

/-- What a detection of a document in memory reads of it. -/
def readsOf (charset : Charset) (bufferSize : Nat) (d description : Bytes) :
    Metered MemorySource :=
  (detect { charset, bufferSize }
    ({ inner := { rest := d, description } } : Metered MemorySource)).source

/-- **The end of a detection** of a document in memory: it closes the source behind the first block
that decides, or behind the read that finds nothing more. -/
theorem exists_readsOf_eq (charset : Charset) {n : Nat} (hn : 0 < n) (d description : Bytes) :
    ∃ k, readsOf charset n d description =
        (InputSource.close (readOff d description n k)).2 ∧
      ((terminatedDecision charset (d.take (n * (k - 1))) = none ∧
          terminatedDecision charset (d.take (n * k)) ≠ none) ∨
        ∃ j, k = j + 1 ∧ d.length ≤ n * j ∧ (j ≠ 0 → n * (j - 1) < d.length) ∧
          terminatedDecision charset d = none) := by
  have hscanned := scanned_over (readOff d description n 0) charset n
  rw [Nat.max_eq_left hn] at hscanned
  rcases hscan : scan false (LineReader.over (readOff d description n 0) charset n) with ⟨result, r⟩
  rw [hscan] at hscanned
  have hsource : ∀ {mode}, verdict result = .ok mode →
      readsOf charset n d description = (InputSource.close r.source).2 := by
    intro mode hv
    obtain ⟨log, hd, -⟩ := detect_of_verdict { charset, bufferSize := n } hscan hv
    exact congrArg Detection.source hd
  cases hscanned with
  | @decided blocks _ mode _ hp hbefore hat hv =>
      obtain ⟨hm, hflatten, -⟩ := pulls_start hp
      obtain ⟨s, hp'⟩ := hp.dropLast
      obtain ⟨-, hflatten', -⟩ := pulls_start hp'
      rw [List.length_dropLast] at hflatten'
      rw [hsource hv, hm]
      refine ⟨blocks.length, rfl, Or.inl ⟨hflatten' ▸ hbefore, ?_⟩⟩
      rw [← hflatten, hat]
      exact fun hnone => nomatch hnone
  | @ended blocks s' _ _ hp hread hnone hv =>
      obtain ⟨rfl, hflatten, hlt⟩ := pulls_start hp
      rw [read_readOff] at hread
      obtain ⟨hempty, hr⟩ := Prod.mk.inj hread
      have hle : d.length ≤ n * blocks.length := by
        rcases List.take_eq_nil_iff.mp (Except.ok.inj hempty) with h | h
        · omega
        · exact List.drop_eq_nil_iff.mp h
      rw [List.take_of_length_le hle] at hflatten
      rw [hsource hv, ← hr]
      refine ⟨blocks.length + 1, rfl, Or.inr ⟨blocks.length, rfl, hle, fun hj => ?_,
        hflatten ▸ hnone⟩⟩
      exact hlt fun hb => hj (List.length_eq_zero_iff.mpr hb)
  | failed hp hread _ =>
      obtain ⟨rfl, -⟩ := pulls_start hp
      rw [read_readOff] at hread
      cases hread

/-- A detection of a document in memory ends with the first block that decides, or with the
read behind the last one. -/
theorem readsOf_cases (charset : Charset) {n : Nat} (hn : 0 < n) (d description : Bytes) :
    (∃ k, (readsOf charset n d description).reads = k ∧
      (readsOf charset n d description).consumed = (d.take (n * k)).length ∧
      terminatedDecision charset (d.take (n * (k - 1))) = none ∧
      terminatedDecision charset (d.take (n * k)) ≠ none) ∨
    (∃ k, (readsOf charset n d description).reads = k + 1 ∧
      (readsOf charset n d description).consumed = d.length ∧ d.length ≤ n * k ∧
      (k ≠ 0 → n * (k - 1) < d.length) ∧ terminatedDecision charset d = none) := by
  obtain ⟨k, hend, ⟨hbefore, hat⟩ | ⟨j, rfl, hle, hlt, hnone⟩⟩ :=
    exists_readsOf_eq charset hn d description
  · rw [hend]
    exact Or.inl ⟨k, rfl, rfl, hbefore, hat⟩
  · have hall : d.length ≤ n * (j + 1) :=
      Nat.le_trans hle (Nat.mul_le_mul_left n (Nat.le_succ _))
    rw [hend]
    exact Or.inr ⟨j, rfl, congrArg List.length (List.take_of_length_le hall), hle, hlt, hnone⟩

/-! ### Just enough blocks -/

/-- So many blocks are enough of a document: they decide it, or there is no more of it. -/
def Enough (charset : Charset) (n : Nat) (d : Bytes) (k : Nat) : Prop :=
  terminatedDecision charset (d.take (n * k)) ≠ none ∨ d.length ≤ n * k

/-- Blocks are not enough as long as they decide nothing and there are bytes behind them. -/
theorem isLeast_enough {charset : Charset} {n : Nat} {d : Bytes} {k : Nat}
    (h : Enough charset n d k)
    (hbefore : k ≠ 0 → terminatedDecision charset (d.take (n * (k - 1))) = none ∧
      n * (k - 1) < d.length) :
    IsLeast {k | Enough charset n d k} k := by
  refine ⟨h, fun j hj => Nat.le_of_not_lt fun hlt => ?_⟩
  obtain ⟨hnone, hlength⟩ := hbefore (Nat.ne_zero_of_lt hlt)
  have hle : n * j ≤ n * (k - 1) := Nat.mul_le_mul_left n (Nat.le_sub_one_of_lt hlt)
  rcases hj with hdecided | hend
  · exact hdecided (terminatedDecision_antitone (List.take_prefix_take_left hle) hnone)
  · omega

/-- A block size of none counts as one. -/
theorem readsOf_max (charset : Charset) (n : Nat) (d description : Bytes) :
    readsOf charset (max n 1) d description = readsOf charset n d description := by
  have hsize : max (max n 1) 1 = max n 1 := Nat.max_eq_left (Nat.le_max_right n 1)
  simp only [readsOf, detect, LineReader.over, hsize]

/-- **A detection takes just enough blocks** of a document in memory, and leaves what is behind
them. -/
theorem exists_isLeast_enough (charset : Charset) (n : Nat) (d description : Bytes) :
    ∃ k, IsLeast {k | Enough charset (max n 1) d k} k ∧
      (readsOf charset n d description).consumed = min d.length (max n 1 * k) ∧
      (readsOf charset n d description).inner.rest = d.drop (max n 1 * k) := by
  rw [← readsOf_max]
  obtain ⟨k, hend, ⟨hbefore, hat⟩ | ⟨j, rfl, hle, hlt, hnone⟩⟩ :=
    exists_readsOf_eq charset (Nat.le_max_right n 1) d description
  · have hmore : max n 1 * (k - 1) < d.length := by
      by_contra hle
      have hall := Nat.le_of_not_lt hle
      have hall' : d.length ≤ max n 1 * k :=
        hall.trans (Nat.mul_le_mul_left _ (Nat.sub_le k 1))
      rw [List.take_of_length_le hall] at hbefore
      rw [List.take_of_length_le hall'] at hat
      exact hat hbefore
    rw [hend]
    exact ⟨k, isLeast_enough (Or.inl hat) fun _ => ⟨hbefore, hmore⟩,
      (List.length_take).trans (Nat.min_comm _ _), rfl⟩
  · have hnext : max n 1 * j ≤ max n 1 * (j + 1) := Nat.mul_le_mul_left _ (Nat.le_succ j)
    rw [hend]
    refine ⟨j, isLeast_enough (Or.inr hle) fun hj => ⟨?_, hlt hj⟩, ?_, ?_⟩
    · exact terminatedDecision_antitone (List.take_prefix _ d) hnone
    · rw [Nat.min_eq_left hle]
      exact congrArg List.length (List.take_of_length_le (hle.trans hnext))
    · exact (List.drop_eq_nil_of_le (hle.trans hnext)).trans (List.drop_eq_nil_of_le hle).symm

/-! ### The number of reads -/

/-- **A detection reads no more than it must.** Of a document in memory it makes as many reads
as there are blocks up to where the document is decided, and takes their bytes. If it is not
decided anywhere, or by a line that nothing terminates, all of its blocks are read, and one
more read finds nothing. -/
theorem detect_reads (charset : Charset) {n : Nat} (hn : 0 < n) (d description : Bytes) :
    (∀ e, DecidedAt charset false d e →
      (readsOf charset n d description).reads = e ⌈/⌉ n ∧
      (readsOf charset n d description).consumed = min d.length (n * (e ⌈/⌉ n))) ∧
    ((¬ ∃ e, DecidedAt charset false d e) →
      (readsOf charset n d description).reads = d.length ⌈/⌉ n + 1 ∧
      (readsOf charset n d description).consumed = d.length) := by
  rcases readsOf_cases charset hn d description with
    ⟨k, hreads, hconsumed, hbefore, hat⟩ | ⟨k, hreads, hconsumed, hle, hlt, hnone⟩
  · refine ⟨fun e he => ?_, fun hnot => absurd ?_ hnot⟩
    · have hdecided := terminatedDecision_take_eq_none_iff he
      have hk : k = e ⌈/⌉ n :=
        eq_ceilDiv hn (Nat.le_of_not_lt fun h => hat ((hdecided _).mpr h))
          fun _ => (hdecided _).mp hbefore
      rw [hreads, hconsumed, List.length_take, ← hk]
      exact ⟨rfl, Nat.min_comm _ _⟩
    · exact exists_decidedAt_iff.mpr fun hnone =>
        hat (terminatedDecision_antitone (List.take_prefix _ d) hnone)
  · refine ⟨fun e he => absurd hnone (exists_decidedAt_iff.mp ⟨e, he⟩), fun _ => ?_⟩
    rw [hreads, hconsumed, ← eq_ceilDiv hn hle hlt]
    exact ⟨rfl, rfl⟩

end

/-- A document whose second line decides. Blocks of six bytes come between the two bytes that
end the first. -/
def secondSample : Bytes :=
  ascii "<?a?>" ++ [Ascii.cr, Ascii.lf] ++ (ascii "<b>" ++ Ascii.lf :: ascii "<c>")

theorem decidedAt_secondSample : DecidedAt .utf8 false secondSample 11 := by
  have hrest : DecidedAt .utf8 false (ascii "<b>" ++ Ascii.lf :: ascii "<c>") 4 :=
    @DecidedAt.here _ .utf8 false (ascii "<b>") (ascii "<c>") Ascii.lf .xsd
      (by unfold Unbroken; decide +kernel) rfl (by decide +kernel)
  exact @DecidedAt.later _ .utf8 false false (ascii "<?a?>") [Ascii.cr, Ascii.lf] _ 4
    (by unfold Unbroken; decide +kernel) (.returnLineFeed _) (by decide +kernel) hrest

/-- The second line is decided within the second block, and the tag of the last document is in
a line that nothing terminates. -/
theorem reads_secondSample :
    (readsOf .utf8 6 secondSample []).reads = 2 ∧ (readsOf .utf8 6 secondSample []).consumed = 12 ∧
    (readsOf .utf8 5 (ascii "<?a?>\n<b>") []).reads = 3 ∧
    (readsOf .utf8 5 (ascii "<?a?>\n<b>") []).consumed = 9 := by
  obtain ⟨hreads, hconsumed⟩ :=
    (detect_reads .utf8 (by decide : 0 < 6) secondSample []).1 11 decidedAt_secondSample
  have hopen : ¬ ∃ e, DecidedAt .utf8 false (ascii "<?a?>\n<b>") e := by
    rw [exists_decidedAt_iff]
    decide +kernel
  obtain ⟨hreads', hconsumed'⟩ :=
    (detect_reads .utf8 (by decide : 0 < 5) (ascii "<?a?>\n<b>") []).2 hopen
  exact ⟨hreads, hconsumed.trans (by decide +kernel), hreads'.trans (by decide +kernel),
    hconsumed'.trans (by decide +kernel)⟩

end Detector

end DoctypeProbe
