import DoctypeProbe.Proofs.Text.Gathering
import DoctypeProbe.Proofs.Text.LineReader
import DoctypeProbe.Source.Memory

/-!
# Reading Line After Line

A reader is asked for one line after the other, and a caller may go on after a failure. The
outcomes of all these calls are a function of the bytes and the charset alone, if the source
delivers its bytes: call number `k`, counted from zero, decodes segment number `k`. How many
bytes a read hands over and how large the blocks are does not show, and neither does a line
that does not decode: it is counted as any other, and the lines behind it stay what they are.

## Main results

* `LineReader.Ahead.after`: what is ahead of a reader after some calls.
* `LineReader.outcome_eq_decoded`: the outcomes of all calls, and the numbers of the lines.
-/

namespace DoctypeProbe

namespace LineReader

open Lines

variable {σ : Type} [InputSource σ]

/-! ### Calls -/

/-- The reader after a number of calls, whatever they answered. -/
def after (r : LineReader σ) : Nat → LineReader σ
  | 0 => r
  | k + 1 => (after r k).readLine.2

/-- The outcome of a call, counted from zero. -/
def outcome (r : LineReader σ) (k : Nat) : Except ReadError (Option Bytes) :=
  (r.after k).readLine.1

/-- The outcome of a call that has the bytes of a line: its text, or why it has none. -/
def decoded (charset : Charset) (raw : Bytes) : Except ReadError (Option Bytes) :=
  ((charset.decode raw).mapError .decoding).map some

/-- What a call answers, by what it has gathered. -/
def answer (charset : Charset) :
    Except IoError (Option Bytes) → Except ReadError (Option Bytes)
  | .error e => .error (.io e)
  | .ok none => .ok none
  | .ok (some raw) => decoded charset raw

theorem Gathered.charset_eq {raw : Bytes} {r r' : LineReader σ}
    {out : Except IoError (Option Bytes)} (h : Gathered raw r out r') : r'.charset = r.charset := by
  cases h <;> rfl

/-- **One call** gathers a line, answers it decoded, and may count it. -/
theorem exists_gathered (r : LineReader σ) :
    ∃ out r' n, Gathered [] r out r' ∧
      r.readLine = (answer r.charset out, { r' with lineNumber := n }) := by
  have hg := gathered [] r
  refine ⟨(r.gather []).1, (r.gather []).2, r.readLine.2.lineNumber, hg, ?_⟩
  rw [← hg.charset_eq, readLine]
  rcases r.gather [] with ⟨e | _ | raw, r'⟩ <;> rfl

/-- One call of many. -/
theorem exists_gathered_after (r : LineReader σ) (k : Nat) :
    ∃ out r' n, Gathered [] (r.after k) out r' ∧
      r.outcome k = answer (r.after k).charset out ∧
      r.after (k + 1) = { r' with lineNumber := n } := by
  obtain ⟨out, r', n, hg, hr⟩ := exists_gathered (r.after k)
  exact ⟨out, r', n, hg, congrArg Prod.fst hr, congrArg Prod.snd hr⟩

/-- **Calls through** to another source, if reads correspond. -/
theorem after_through {τ : Type} [InputSource τ] {f : σ → τ}
    (hf : ∀ s n, InputSource.read (f s) n = (InputSource.read s n).map id f)
    (r : LineReader σ) (k : Nat) : (r.through f).after k = (r.after k).through f := by
  induction k with
  | zero => rfl
  | succ k ih => rw [after, after, ih, readLine_through hf, Prod.map_snd]

theorem outcome_through {τ : Type} [InputSource τ] {f : σ → τ}
    (hf : ∀ s n, InputSource.read (f s) n = (InputSource.read s n).map id f)
    (r : LineReader σ) (k : Nat) : (r.through f).outcome k = r.outcome k := by
  rw [outcome, outcome, after_through hf, readLine_through hf, Prod.map_fst]
  rfl

/-! ### Outcomes over a source that delivers its bytes -/

/-- **What is ahead after some calls**: the lines ahead before, without as many of them. -/
theorem Ahead.after {r : LineReader σ} {lines : List Bytes} (h : Ahead r lines) (k : Nat) :
    Ahead (r.after k) (lines.drop k) ∧ (r.after k).charset = r.charset ∧
      (r.after k).lineNumber = r.lineNumber + min k lines.length := by
  induction k with
  | zero => exact ⟨h, rfl, by simp [LineReader.after]⟩
  | succ k ih =>
      obtain ⟨ha, hc, hn⟩ := ih
      rw [LineReader.after]
      cases hl : lines.drop k with
      | nil =>
          have hle : lines.length ≤ k := List.drop_eq_nil_iff.mp hl
          obtain ⟨r', hr, ha', hv⟩ := (hl ▸ ha).readLine_nil
          rw [hr, List.drop_eq_nil_of_le (by omega)]
          refine ⟨ha', hv.charset.trans hc, ?_⟩
          change r'.lineNumber = _
          rw [hv.lineNumber, hn]
          omega
      | cons raw rest =>
          have hlen := congrArg List.length hl
          rw [List.length_drop, List.length_cons] at hlen
          obtain ⟨r', hr, ha', hv⟩ := (hl ▸ ha).readLine_cons
          rw [hr, ← List.tail_drop, hl]
          refine ⟨ha', hv.charset.trans hc, ?_⟩
          change r'.lineNumber = _
          rw [hv.lineNumber, hn]
          omega

/-- **The outcomes of all calls.** Over a source that delivers the bytes `d`, call number `k`
decodes segment number `k` of `d`, and makes `k + 1` the number of lines; behind the last
segment every call answers that there is none, and the number of lines stays. -/
theorem outcome_eq_decoded {s : σ} {d : Bytes} {lines : List Bytes} (h : Delivers s d)
    (hl : Segmented d lines) (charset : Charset) (bufferSize : Nat) :
    (∀ k raw, lines[k]? = some raw →
      (LineReader.over s charset bufferSize).outcome k = decoded charset raw ∧
        ((LineReader.over s charset bufferSize).after (k + 1)).lineNumber = k + 1) ∧
    (∀ k, lines.length ≤ k →
      (LineReader.over s charset bufferSize).outcome k = .ok none ∧
        ((LineReader.over s charset bufferSize).after (k + 1)).lineNumber = lines.length) := by
  obtain rfl := segmented_iff.mp hl
  have hahead := ahead_over h charset bufferSize
  refine ⟨fun k raw hk => ?_, fun k hk => ?_⟩
  · obtain ⟨hlt, rfl⟩ := List.getElem?_eq_some_iff.mp hk
    obtain ⟨ha, hc, -⟩ := hahead.after k
    rw [List.drop_eq_getElem_cons hlt] at ha
    obtain ⟨r', hr, -⟩ := ha.readLine_cons
    refine ⟨by rw [outcome, hr, hc]; rfl, ?_⟩
    rw [(hahead.after (k + 1)).2.2, Nat.min_eq_left hlt]
    exact Nat.zero_add _
  · obtain ⟨ha, -⟩ := hahead.after k
    rw [List.drop_eq_nil_of_le hk] at ha
    obtain ⟨r', hr, -⟩ := ha.readLine_nil
    refine ⟨by rw [outcome, hr], ?_⟩
    rw [(hahead.after (k + 1)).2.2, Nat.min_eq_right (by omega)]
    exact Nat.zero_add _

/-- A text of four lines with mixed ends, the second of which is not UTF-8. Blocks of three
bytes come between the two bytes that end the first. -/
def mixedSample : Bytes := ascii "ab\r\n" ++ [0x63, 0xE9] ++ ascii "\n\rd"

theorem outcome_mixedSample :
    let r := LineReader.over ({ rest := mixedSample, description := [] } : MemorySource) .utf8 3
    Segmented mixedSample [ascii "ab", [0x63, 0xE9], [], ascii "d"] ∧
      r.outcome 0 = .ok (some (ascii "ab")) ∧
      r.outcome 1 = .error (.decoding ⟨.truncated, 1⟩) ∧ (r.after 2).lineNumber = 2 ∧
      r.outcome 3 = .ok (some (ascii "d")) ∧ r.outcome 4 = .ok none := by
  have hl : Segmented mixedSample [ascii "ab", [0x63, 0xE9], [], ascii "d"] :=
    segmented_iff.mpr (by decide +kernel)
  obtain ⟨hline, hnone⟩ := outcome_eq_decoded (delivers_memory mixedSample []) hl .utf8 3
  refine ⟨hl, ?_, ?_, (hline 1 _ rfl).2, ?_, (hnone 4 (by decide)).1⟩
  · rw [(hline 0 _ rfl).1]
    decide +kernel
  · rw [(hline 1 _ rfl).1]
    decide +kernel
  · rw [(hline 3 _ rfl).1]
    decide +kernel

end LineReader

end DoctypeProbe
