import DoctypeProbe.Proofs.Detector.Forward

/-!
# How Scans End

A scan over a source of which nothing is known may be told apart from others by the answers of
its reads alone. `Scanned` says what every scan has in common: it pulls blocks, and goes on as
long as no terminated line of what they hold decides. So it ends in one of three ways. The last
block brings a line that decides, with what ends it; or the source comes to its end, and the
mode is that of all it has delivered; or a read fails.

While a scan is on its way (`Underway`), the lines that it has walked and the rest of the last
block make up all that was delivered, and no terminated line before that rest has decided. Each
line read either ends the scan or keeps this, and `scanned` follows by induction on what is left
to be read.

## Main results

* `Detector.terminatedDecision_append`, `Detector.modeOf_append`: what follows complete lines
  that decide nothing.
* `Detector.Underway.step`: one line of a scan.
* `Detector.scanned`: the ways in which a scan ends.
-/

namespace DoctypeProbe

/-! ### Terminated lines of a text in parts -/

namespace Lines

/-- A complete text in front is finished. -/
theorem finished_append_of_complete {s : Bytes} (h : Complete s) (t : Bytes) :
    finished (s ++ t) = s ++ finished t := by
  rcases List.eq_nil_or_concat s with rfl | ⟨s, b, rfl⟩
  · rfl
  · have hb : isTerminator b = true := h b (by simp)
    rw [List.concat_eq_append, List.append_assoc, List.singleton_append,
      finished_append_terminator hb, List.append_assoc, List.singleton_append]

theorem finished_of_complete {s : Bytes} (h : Complete s) : finished s = s := by
  have hs := finished_append_of_complete h []
  rwa [List.append_nil, finished_of_unbroken unbroken_nil, List.append_nil] at hs

/-- The terminated lines of a text whose first part is complete. -/
theorem ofText_finished_append_of_complete {s : Bytes} (h : Complete s) (t : Bytes) :
    ofText (finished (s ++ t)) =
      ofText s ++ ofText (finished (resume (s.getLast? == some Ascii.cr) t)) := by
  rw [finished_append_of_complete h, ofText_append_of_complete h, finished_resume]

/-- What stands before the terminator of a resumed line. -/
theorem exists_append_of_resume {afterReturn : Bool} {s line rest : Bytes} {t : Byte}
    (h : resume afterReturn s = line ++ t :: rest) :
    ∃ front, s = front ++ t :: rest ∧ resume afterReturn front = line ∧
      resume afterReturn (front ++ [t]) = line ++ [t] := by
  rcases resume_cases afterReturn s with ⟨hs, hhead⟩ | ⟨rfl, hs⟩
  · -- nothing was taken away, and nothing is from the line alone
    rw [hs] at h
    have hkeep : ∀ p, p <+: s → resume afterReturn p = p := by
      rintro p ⟨q, hq⟩
      refine resume_of_head? fun har hp => hhead har ?_
      rw [← hq, List.head?_append, hp]
      rfl
    refine ⟨line, h, hkeep _ ⟨_, h.symm⟩, hkeep _ ⟨rest, ?_⟩⟩
    rw [h, List.append_assoc, List.singleton_append]
  · exact ⟨Ascii.lf :: line, by rw [hs, h, List.cons_append], resume_lineFeed line,
      resume_lineFeed _⟩

end Lines

/-! ### The last of some blocks -/

namespace LineReader

theorem lastBlock_append (block : Bytes) (blocks more : List Bytes) :
    lastBlock block (blocks ++ more) = lastBlock (lastBlock block blocks) more := by
  induction blocks generalizing block with
  | nil => rfl
  | cons b blocks ih => exact ih b

/-- The end of the last block is one of the blocks before it if there are no others. -/
theorem suffix_lastBlock {block unread s : Bytes} (more : List Bytes)
    (hs : s <:+ lastBlock unread more) (hu : unread <:+ block) : s <:+ lastBlock block more := by
  cases more with
  | nil => exact hs.trans hu
  | cons => exact hs

theorem flatten_dropLast_append (block : Bytes) {blocks : List Bytes} (h : blocks ≠ []) :
    blocks.dropLast.flatten ++ lastBlock block blocks = blocks.flatten := by
  induction blocks generalizing block with
  | nil => exact absurd rfl h
  | cons b blocks ih =>
      rcases blocks with - | ⟨c, blocks⟩
      · simp [lastBlock]
      · rw [List.dropLast_cons_cons, List.flatten_cons, List.append_assoc, lastBlock,
          ih b (List.cons_ne_nil c blocks), ← List.flatten_cons]

/-- What stands before an end of the last block has all of the blocks before that one. -/
theorem prefix_flatten_dropLast {blocks : List Bytes} {front s : Bytes}
    (h : blocks.flatten = front ++ s) (hs : s <:+ lastBlock [] blocks) :
    blocks.dropLast.flatten <+: front := by
  by_cases hb : blocks = []
  · rw [hb]
    exact List.nil_prefix
  · obtain ⟨x, hx⟩ := hs
    have hsplit := flatten_dropLast_append [] hb
    rw [h, ← hx, ← List.append_assoc] at hsplit
    exact ⟨x, List.append_cancel_right hsplit⟩

end LineReader

namespace Detector

open Lines LineReader

variable [Alphabet]

/-! ### Behind lines that decide nothing -/

section

variable {charset : Charset} {front : Bytes} {inside : Bool}

/-- **The terminated decision behind complete lines** that decide nothing. -/
theorem terminatedDecision_append (hc : Complete front)
    (hf : advance charset false (ofText front) = .ok inside) (s : Bytes) :
    terminatedDecision charset (front ++ s) =
      decided (advance charset inside
        (ofText (finished (resume (front.getLast? == some Ascii.cr) s)))) := by
  rw [terminatedDecision, findSome?_eq_decided, ofText_finished_append_of_complete hc,
    advance_append, hf]
  rfl

/-- **The mode behind complete lines** that decide nothing. -/
theorem modeOf_append (hc : Complete front)
    (hf : advance charset false (ofText front) = .ok inside) (s : Bytes) :
    modeOf charset (front ++ s) =
      (decided (advance charset inside
        (ofText (resume (front.getLast? == some Ascii.cr) s)))).getD .xsd := by
  rw [modeOf, modeOfLines_eq_decided, ofText_append_of_complete hc, advance_append, hf]
  rfl

end

/-- What a terminated line decides, it decides of every text that goes on from there. -/
theorem terminatedDecision_append_of_some {charset : Charset} {p : Bytes} {mode : Mode}
    (h : terminatedDecision charset p = some mode) (q : Bytes) :
    terminatedDecision charset (p ++ q) = some mode := by
  obtain ⟨tail, hp⟩ := exists_finished_append p
  have hc := complete_finished p
  have hpq : p ++ q = finished p ++ (tail ++ q) := by rw [← List.append_assoc, ← hp]
  rw [terminatedDecision, findSome?_eq_decided] at h ⊢
  rw [hpq, ofText_finished_append_of_complete hc, advance_append]
  cases hadv : advance charset false (ofText (finished p)) with
  | error mode' =>
      rw [hadv] at h
      exact h
  | ok inside =>
      rw [hadv] at h
      cases h

theorem terminatedDecision_antitone {charset : Charset} {p q : Bytes} (hp : p <+: q)
    (h : terminatedDecision charset q = none) : terminatedDecision charset p = none := by
  obtain ⟨r, rfl⟩ := hp
  cases hd : terminatedDecision charset p with
  | none => rfl
  | some mode =>
      rw [terminatedDecision_append_of_some hd] at h
      cases h

/-! ### The ways in which a scan ends -/

variable {σ : Type} [InputSource σ]

/-- How a scan that reads up to `n` bytes at a time ends, and the source that it leaves.

* `decided`: the last block brings the first terminated line that decides.
* `ended`: the source comes to its end.
* `failed`: a read fails. -/
inductive Scanned (charset : Charset) (n : Nat) (s : σ) :
    Except ReadError (Option (Finding × Nat)) → σ → Prop
  | decided {blocks : List Bytes} {s' : σ} {mode : Mode}
      {result : Except ReadError (Option (Finding × Nat))} :
      Pulls n s blocks s' → terminatedDecision charset blocks.dropLast.flatten = none →
      terminatedDecision charset blocks.flatten = some mode → verdict result = .ok mode →
      Scanned charset n s result s'
  | ended {blocks : List Bytes} {s' s'' : σ}
      {result : Except ReadError (Option (Finding × Nat))} :
      Pulls n s blocks s' → InputSource.read s' n = (.ok [], s'') →
      terminatedDecision charset blocks.flatten = none →
      verdict result = .ok (modeOf charset blocks.flatten) → Scanned charset n s result s''
  | failed {blocks : List Bytes} {s' s'' : σ} {e : IoError} :
      Pulls n s blocks s' → InputSource.read s' n = (.error e, s'') →
      terminatedDecision charset blocks.flatten = none →
      Scanned charset n s (.error (.io e)) s''

/-- A scan of `s` is on its way. It has pulled blocks and walked the complete lines in front of
them, which decide nothing; the rest of them, in the last block, is unread. -/
structure Underway (s : σ) (inside : Bool) (r : LineReader σ) (blocks : List Bytes)
    (front : Bytes) : Prop where
  pulls : Pulls r.bufferSize s blocks r.source
  split : blocks.flatten = front ++ r.unread
  last : r.unread <:+ lastBlock [] blocks
  complete : Complete front
  undecided : advance r.charset false (ofText front) = .ok inside
  afterReturn : r.afterReturn = (front.getLast? == some Ascii.cr)
  atEnd : r.atEnd = false

theorem underway_over (s : σ) (charset : Charset) (bufferSize : Nat) :
    Underway s false (LineReader.over s charset bufferSize) [] [] where
  pulls := .done s
  split := rfl
  last := List.nil_suffix
  complete := fun _ hb => nomatch hb
  undecided := rfl
  afterReturn := rfl
  atEnd := rfl

section

variable {s : σ} {inside : Bool} {r : LineReader σ} {blocks : List Bytes} {front : Bytes}

/-- Blocks pulled next are put behind the unread bytes. -/
theorem Underway.flatten_append (h : Underway s inside r blocks front) (more : List Bytes) :
    (blocks ++ more).flatten = front ++ (r.unread ++ more.flatten) := by
  rw [List.flatten_append, h.split, List.append_assoc]

/-- Unread bytes and blocks without a terminator decide nothing. -/
theorem Underway.terminatedDecision_eq_none (h : Underway s inside r blocks front)
    {more : List Bytes} (hu : Unbroken (resume r.afterReturn (r.unread ++ more.flatten))) :
    terminatedDecision r.charset (blocks ++ more).flatten = none := by
  rw [h.flatten_append, terminatedDecision_append h.complete h.undecided, ← h.afterReturn,
    finished_of_unbroken hu]
  rfl

/-- What a line that is read next adds to the lines walked. -/
theorem Underway.line (h : Underway s inside r blocks front) {more : List Bytes}
    {line rest : Bytes} {t : Byte}
    (ht : resume r.afterReturn (r.unread ++ more.flatten) = line ++ t :: rest)
    (hl : Unbroken line) (hterm : isTerminator t = true)
    (hsuf : t :: rest <:+ lastBlock r.unread more) :
    ∃ front', (blocks ++ more).flatten = front' ++ rest ∧ rest <:+ lastBlock [] (blocks ++ more) ∧
      Complete front' ∧ front'.getLast? = some t ∧
      advance r.charset false (ofText front') = advanceLine r.charset inside line ∧
      terminatedDecision r.charset (blocks ++ more).dropLast.flatten = none := by
  obtain ⟨z, hz, hline, hlinet⟩ := exists_append_of_resume ht
  have hlast : t :: rest <:+ lastBlock [] (blocks ++ more) := by
    rw [lastBlock_append]
    exact suffix_lastBlock more hsuf h.last
  have hsplit : (blocks ++ more).flatten = (front ++ z) ++ t :: rest := by
    rw [h.flatten_append, hz, List.append_assoc]
  have hget : (front ++ (z ++ [t])).getLast? = some t := by simp
  refine ⟨front ++ (z ++ [t]), ?_, ?_, ?_, hget, ?_, ?_⟩
  · rw [hsplit]
    simp
  · exact (List.suffix_cons t rest).trans hlast
  · rw [Complete, hget]
    rintro b ⟨⟩
    exact hterm
  · rw [ofText_append_of_complete h.complete, ← h.afterReturn, hlinet,
      ofText_append_terminator hl hterm, resume_nil, advance_append, h.undecided]
    exact bind_pure _
  · -- the blocks before the last one end before the terminator
    refine terminatedDecision_antitone (prefix_flatten_dropLast hsplit hlast) ?_
    rw [terminatedDecision_append h.complete h.undecided, ← h.afterReturn, hline,
      finished_of_unbroken hl]
    rfl

/-- A line that hands something on decodes. -/
theorem exists_decoded_of_advanceLine {charset : Charset} {inside inside' : Bool} {raw : Bytes}
    (h : advanceLine charset inside raw = .ok inside') :
    ∃ line, decoded charset raw = .ok (some line) := by
  cases hd : charset.decode raw with
  | error e =>
      rw [advanceLine, hd] at h
      cases h
  | ok line => exact ⟨line, by rw [decoded, hd]; rfl⟩

/-- **The unterminated end of a document** ends a scan, and decides if it can. The source is not
read again. -/
theorem scan_unterminated {r r' : LineReader σ} {tail : Bytes}
    (hr : r.readLine = (answer r.charset (.ok (unterminated tail)), r')) (htail : Unbroken tail)
    (hu : r'.unread = []) (he : r'.atEnd = true) (inside : Bool) :
    ∃ result r'', scan inside r = (result, r'') ∧ r''.source = r'.source ∧
      verdict result = .ok ((decided (advance r.charset inside (ofText tail))).getD .xsd) := by
  by_cases hne : tail = []
  · rw [unterminated_eq_none hne] at hr
    exact ⟨_, r', scan_end hr, rfl, by rw [hne]; rfl⟩
  · have hsome : unterminated tail = some tail := by simp [unterminated, hne]
    rw [hsome] at hr
    rw [ofText_unbroken htail hne, advance_cons]
    rcases scan_decoded hr inside with ⟨mode, result, hmode, hs, hv⟩ | ⟨inside', hi, hs⟩
    · exact ⟨result, r', hs, rfl, by rw [hv, hmode]; rfl⟩
    · -- the call behind it answers that there is no line
      have hnone : r'.readLine = (.ok none, r') := by
        rw [readLine, gather_atEnd hu he]
        rfl
      exact ⟨_, r', hs.trans (scan_end hnone), rfl, by rw [hi]; rfl⟩

/-- **One line of a scan**: the scan ends, or it is still on its way behind the line. -/
theorem Underway.step (h : Underway s inside r blocks front) :
    Scanned r.charset r.bufferSize s (scan inside r).1 (scan inside r).2.source ∨
    ∃ inside' r' blocks' front', Underway s inside' r' blocks' front' ∧
      scan inside r = scan inside' r' ∧ r'.charset = r.charset ∧ r'.bufferSize = r.bufferSize ∧
      r'.pending < r.pending := by
  obtain ⟨out, r', n, hg, hr⟩ := exists_gathered r
  cases hg with
  | @line more s' line t rest hp _ ht hl hterm hsuf =>
      obtain ⟨front', hsplit, hlast, hc, hget, hadv, hnone⟩ := h.line ht hl hterm hsuf
      have hpulls := h.pulls.append hp
      rcases scan_decoded hr inside with ⟨mode, result, hmode, hs, hv⟩ | ⟨inside', hi, hs⟩
      · have hfront : terminatedDecision r.charset front' = some mode := by
          rw [terminatedDecision, findSome?_eq_decided, finished_of_complete hc, hadv]
          exact congrArg decided hmode
        rw [hs]
        exact Or.inl (.decided hpulls hnone
          (hsplit ▸ terminatedDecision_append_of_some hfront rest) hv)
      · obtain ⟨text, hd⟩ := exists_decoded_of_advanceLine hi
        rw [answer, hd] at hr
        refine Or.inr ⟨inside', _, blocks ++ more, front', ?_, hs, rfl, rfl, pending_lt hr⟩
        exact ⟨hpulls, hsplit, hlast, hc, hadv.trans hi, by rw [hget]; rfl, h.atEnd⟩
  | exhausted he =>
      rw [h.atEnd] at he
      cases he
  | @ended more s' s'' hp _ hread hu =>
      obtain ⟨result, r'', hs, hsource, hv⟩ := scan_unterminated hr hu rfl rfl inside
      refine Or.inl ?_
      rw [hs, hsource]
      refine .ended (h.pulls.append hp) hread (h.terminatedDecision_eq_none hu) ?_
      rw [hv, h.flatten_append, modeOf_append h.complete h.undecided, ← h.afterReturn]
      rfl
  | failed hp _ hread hu =>
      rw [scan_error hr]
      exact Or.inl (.failed (h.pulls.append hp) hread (h.terminatedDecision_eq_none hu))

/-- **The ways in which a scan ends.** Induction on what is left to be read. -/
theorem scanned (h : Underway s inside r blocks front) :
    Scanned r.charset r.bufferSize s (scan inside r).1 (scan inside r).2.source := by
  induction hn : r.pending using Nat.strong_induction_on generalizing inside r blocks front with
  | _ n ih =>
      rcases h.step with hend | ⟨inside', r', blocks', front', h', hs, hc, hb, hlt⟩
      · exact hend
      · rw [hs, ← hc, ← hb]
        exact ih r'.pending (hn ▸ hlt) h' rfl

end

/-- The ways in which the scan of a detection ends. -/
theorem scanned_over (s : σ) (charset : Charset) (bufferSize : Nat) :
    Scanned charset (max bufferSize 1) s
      (scan false (LineReader.over s charset bufferSize)).1
      (scan false (LineReader.over s charset bufferSize)).2.source :=
  scanned (underway_over s charset bufferSize)

/-! ### Detections -/

/-- What is logged of a document in a named source whose mode is known: one warning if a line
does not decode, and otherwise none. -/
def Logged (description : Bytes) (charset : Charset) (mode : Mode) (log : List Log.Record) : Prop :=
  (mode = .auto ∧ ∃ e, log = [undecodable description charset e]) ∨
    (mode ≠ .auto ∧ ∀ record ∈ log, record.level ≠ .warning)

/-- **A detection whose scan gives a mode** closes the source that the scan has left. -/
theorem detect_of_verdict (options : Options) {s : σ}
    {result : Except ReadError (Option (Finding × Nat))} {r : LineReader σ} {mode : Mode}
    (h : scan false (LineReader.over s options.charset options.bufferSize) = (result, r))
    (hv : verdict result = .ok mode) :
    ∃ log, detect options s = conclude r.source mode log ∧
      Logged (InputSource.description r.source) options.charset mode log := by
  rw [detect, h]
  rcases result with (e | e) | _ | ⟨finding, line⟩
  · cases hv
  · cases hv
    exact ⟨_, rfl, Or.inl ⟨rfl, e, rfl⟩⟩
  · cases hv
    exact ⟨_, rfl, Or.inr ⟨by decide, by simp⟩⟩
  · cases hv
    refine ⟨_, rfl, Or.inr ⟨finding.mode_ne_auto, ?_⟩⟩
    cases finding <;> · simp only [List.forall_mem_singleton, Finding.record]; decide

/-- **A detection whose scan fails** passes the failure on, and leaves the source as it is. -/
theorem detect_of_failed (options : Options) {s : σ} {r : LineReader σ} {e : IoError}
    (h : scan false (LineReader.over s options.charset options.bufferSize) =
      (.error (.io e), r)) :
    detect options s = { outcome := .error e, log := [], source := r.source } := by
  rw [detect, h]

end Detector

end DoctypeProbe
