import DoctypeProbe.Proofs.Toml.Readings

/-!
# Where Faults Are Met

The reader goes through a text byte by byte, and a fault is met at one of them: what stands before
that byte can still go on in another way, and with that byte it cannot (`Stops`). If the fault is
the end of the text, then no byte is met, and all of it can still go on. A reading that succeeds
depends on what it has taken, and on no more than the one byte behind (`Takes`).

Both are said together of a reading (`Exact`), and put together along `Reading.andThen` and behind
what is skipped. For a reading of its own it takes one way to go on for each fault.

## Main results

* `Toml.Exact.closed`, `Toml.Exact.faulty`, `Toml.Exact.unfinished`: readings one by one.
* `Toml.Exact.andThen`, `Toml.Exact.behind`: how they are put together.
-/

namespace DoctypeProbe

namespace Toml

variable {α β : Type}

/-- Whether a fault is found by moving past a byte. All others are found by looking at it. -/
def Fault.movesPast : Fault → Bool
  | .expectedEquals _ | .unterminatedSection | .unknownEscape _ | .unterminatedString => true
  | _ => false

/-- By how many lines a fault is reported late, if `ahead` stands where it is met. -/
def Fault.late (fault : Fault) (ahead : Bytes) : Nat :=
  if fault.movesPast = true ∧ ahead.head? = some Ascii.lf then 1 else 0

/-- An outcome in which a fault is not met: another one is, or the text is read to its end. After
an item the end of the text is a fault as well. -/
def Departs (fault : Fault) : Except ParseError (α × Cursor) → Prop
  | .ok (_, c) => c.rest = [] ∧ fault ≠ .expectedComma
  | .error e => e.fault ≠ fault

/-- A reading meets a fault between `before` and `after`. `starts` says how a text may begin that
is put in the place of the text read, if nothing stands before the fault. -/
structure Stops (starts : Bytes → Prop) (read : Reading α) (c : Cursor) (e : ParseError)
    (before after : Bytes) : Prop where
  text : c.rest = before ++ after
  line : e.line = c.line + before.count Ascii.lf + e.fault.late after
  settled : ∀ b ∈ after.head?, ∀ more, read ⟨before ++ b :: more, c.line⟩ = .error e
  unsettled : ∃ more, (before = [] → starts more) ∧
    Departs e.fault (read ⟨before ++ more, c.line⟩)

/-- A reading takes a text, whatever follows that begins as the text behind, or satisfies
`ends`. -/
structure Takes (ends : Bytes → Prop) (read : Reading α) (c : Cursor) (a : α) (c' : Cursor)
    (taken : Bytes) : Prop where
  text : c.rest = taken ++ c'.rest
  line : c'.line = c.line + taken.count Ascii.lf
  ne_nil : taken ≠ []
  reads : ∀ t, t.head? = c'.rest.head? ∨ ends t → read ⟨taken ++ t, c.line⟩ = .ok (a, ⟨t, c'.line⟩)

/-- It is known where a reading stops, or what it takes. -/
structure Exact (starts ends : Bytes → Prop) (read : Reading α) (c : Cursor) : Prop where
  stops : ∀ e, read c = .error e → ∃ before after, Stops starts read c e before after
  takes : ∀ a c', read c = .ok (a, c') → ∃ taken, Takes ends read c a c' taken

/-- Any text. -/
def AnyText (_ : Bytes) : Prop := True

/-! ### Readings one by one -/

variable {starts starts' ends ends' : Bytes → Prop} {read whole : Reading α} {c c' : Cursor}
  {e : ParseError} {a : α} {before after taken front s : Bytes} {line : Nat}

/-- A fault that is found by looking at a byte is not reported late. -/
theorem line_eq_of_looking {fault : Fault} (h : fault.movesPast = false) (line : Nat)
    (ahead : Bytes) : line = line + fault.late ahead := by
  rw [Fault.late, if_neg fun hlate => Bool.false_ne_true (h.symm.trans hlate.1), Nat.add_zero]

/-- Bytes that are no line ends leave the line as it is. -/
theorem line_eq_of_not_mem (front : Bytes) (h : Ascii.lf ∉ front) (line : Nat) :
    line = line + front.count Ascii.lf := by
  rw [List.count_eq_zero_of_not_mem h, Nat.add_zero]

theorem line_eq_append {b : Byte} (hb : b ≠ Ascii.lf) (line : Nat) (front : Bytes) :
    line + front.count Ascii.lf = line + (front ++ [b]).count Ascii.lf := by
  rw [List.count_append, List.count_singleton, if_neg (by simpa using hb), Nat.add_zero]

/-- A byte that a fault is found by moving past is counted. -/
theorem lineAfter_eq {fault : Fault} (hfault : fault.movesPast = true) (b : Byte) (s : Bytes)
    (line : Nat) :
    Cursor.lineAfter line b = line + fault.late (b :: s) := by
  rw [Cursor.lineAfter, Fault.late]
  by_cases hb : b = Ascii.lf <;> simp [hb, hfault]

/-- A reading that ends with a byte of its own, which is no line end, takes what it does whatever
follows. -/
theorem Exact.closed (a : α) {b : Byte} {t : Bytes} (hb : b ≠ Ascii.lf) (hs : s = front ++ b :: t)
    (hread : ∀ u, read ⟨front ++ b :: u, line⟩ = .ok (a, ⟨u, line + front.count Ascii.lf⟩)) :
    Exact starts ends read ⟨s, line⟩ where
  stops := fun e he => by
    rw [hs, hread] at he
    cases he
  takes := fun a' c' h => by
    rw [hs, hread] at h
    obtain ⟨rfl, rfl⟩ := Prod.mk.inj (Except.ok.inj h)
    have htext : ∀ u, front ++ [b] ++ u = front ++ b :: u := fun u => by simp
    refine ⟨front ++ [b], hs.trans (htext t).symm, line_eq_append hb line front, by simp, ?_⟩
    exact fun u _ => by rw [htext, hread]

/-- A reading that meets a fault at a byte, if with `more` in its place it does not. -/
theorem Exact.faulty {fault : Fault} {line' : Nat} {b : Byte} {t : Bytes} (before : Bytes)
    (hs : s = before ++ b :: t)
    (hline : line' = line + before.count Ascii.lf + fault.late (b :: t))
    (hread : ∀ u, read ⟨before ++ b :: u, line⟩ = .error ⟨line', fault⟩) (more : Bytes)
    (hstarts : before = [] → starts more) (hdeparts : Departs fault (read ⟨before ++ more, line⟩)) :
    Exact starts ends read ⟨s, line⟩ where
  stops := fun e he => by
    rw [hs, hread] at he
    obtain rfl := Except.error.inj he
    exact ⟨before, b :: t, hs, hline, fun b' hb' u => Option.some.inj hb' ▸ hread u, more, hstarts,
      hdeparts⟩
  takes := fun a' c' h => by
    rw [hs, hread] at h
    cases h

/-- A reading that meets a fault at the end of the text, if with `more` behind it does not. -/
theorem Exact.unfinished {fault : Fault}
    (hread : read ⟨s, line⟩ = .error ⟨line + s.count Ascii.lf, fault⟩) (more : Bytes)
    (hstarts : s = [] → starts more) (hdeparts : Departs fault (read ⟨s ++ more, line⟩)) :
    Exact starts ends read ⟨s, line⟩ where
  stops := fun e he => by
    obtain rfl := Except.error.inj (hread.symm.trans he)
    refine ⟨s, [], (List.append_nil s).symm, ?_, nofun, more, hstarts, hdeparts⟩
    rw [Fault.late, if_neg nofun]
    rfl
  takes := fun a' c' h => by
    rw [hread] at h
    cases h

/-! ### Readings put together -/

theorem head?_before {b : Byte} (hb : b ∈ after.head?) (before more : Bytes) :
    (before ++ b :: more).head? = (before ++ after).head? := by
  rw [List.head?_append, List.head?_append, Option.mem_def.mp hb]
  rfl

theorem head?_of_ne_nil (h : taken ≠ []) (s t : Bytes) :
    (taken ++ s).head? = (taken ++ t).head? := by
  obtain ⟨b, taken, rfl⟩ := List.exists_cons_of_ne_nil h
  rfl

/-- What begins as the text does that is read, or may be put in its place. -/
theorem Stops.resumes (h : Stops starts read c e before after) {more : Bytes}
    (hmore : before = [] → starts more) :
    (before ++ more).head? = c.rest.head? ∨ starts (before ++ more) := by
  by_cases hb : before = []
  · rw [hb, List.nil_append]
    exact Or.inr (hmore hb)
  · rw [h.text]
    exact Or.inl (head?_of_ne_nil hb _ _)

/-- **Behind a text** that is skipped, or taken into account, a reading stops where it does. -/
theorem Stops.behind {c : Cursor} (h : Stops starts read c e before after)
    (hline : c.line = line + front.count Ascii.lf)
    (hwhole : ∀ t, t.head? = c.rest.head? ∨ starts t → whole ⟨front ++ t, line⟩ = read ⟨t, c.line⟩)
    (hstarts : front = [] → ∀ t, starts t → starts' t) :
    Stops starts' whole ⟨front ++ c.rest, line⟩ e (front ++ before) after where
  text := by rw [h.text, List.append_assoc]
  line := by rw [h.line, hline, List.count_append, Nat.add_assoc line]
  settled := fun b hb more => by
    rw [List.append_assoc, hwhole _ (Or.inl ?_), h.settled b hb more]
    rw [h.text, head?_before hb]
  unsettled := by
    obtain ⟨more, hmore, hdeparts⟩ := h.unsettled
    refine ⟨more, fun hnil => ?_, ?_⟩
    · obtain ⟨hfront, hbefore⟩ := List.append_eq_nil_iff.mp hnil
      exact hstarts hfront more (hmore hbefore)
    · rw [List.append_assoc, hwhole _ (h.resumes hmore)]
      exact hdeparts

theorem Takes.behind (h : Takes ends read c a c' taken)
    (hline : c.line = line + front.count Ascii.lf)
    (hwhole : ∀ t, t.head? = c.rest.head? → whole ⟨front ++ t, line⟩ = read ⟨t, c.line⟩) :
    Takes ends whole ⟨front ++ c.rest, line⟩ a c' (front ++ taken) where
  text := by rw [h.text, List.append_assoc]
  line := by rw [h.line, hline, List.count_append, Nat.add_assoc line]
  ne_nil := List.append_ne_nil_of_right_ne_nil _ h.ne_nil
  reads := fun t ht => by
    rw [List.append_assoc, hwhole _ ?_, h.reads t ht]
    rw [h.text]
    exact head?_of_ne_nil h.ne_nil _ _

/-- **Behind a text**, a reading is as exact as it is. -/
theorem Exact.behind (h : Exact starts ends read c) (front : Bytes) (hs : s = front ++ c.rest)
    (hline : c.line = line + front.count Ascii.lf)
    (hwhole : ∀ t, t.head? = c.rest.head? ∨ starts t → whole ⟨front ++ t, line⟩ = read ⟨t, c.line⟩)
    (hstarts : front = [] → ∀ t, starts t → starts' t) : Exact starts' ends whole ⟨s, line⟩ where
  stops := fun e he => by
    rw [hs, hwhole _ (Or.inl rfl)] at he
    obtain ⟨before, after, hstops⟩ := h.stops e he
    exact ⟨_, _, hs ▸ hstops.behind hline hwhole hstarts⟩
  takes := fun a c' hread => by
    rw [hs, hwhole _ (Or.inl rfl)] at hread
    obtain ⟨taken, htakes⟩ := h.takes a c' hread
    exact ⟨_, hs ▸ htakes.behind hline fun t ht => hwhole t (Or.inl ht)⟩

/-- A reading goes on from the end of a text without meeting a fault that is not met there. -/
def EndsWell (next : α → Reading β) : Prop :=
  ∀ a line fault, fault ≠ .expectedComma → Departs fault (next a ⟨[], line⟩)

theorem Departs.andThen {fault : Fault} {next : α → Reading β} (hnext : EndsWell next)
    (h : Departs fault (read c)) : Departs fault (read.andThen next c) := by
  rw [Reading.andThen]
  rcases hr : read c with e | ⟨a, s, line⟩
  · rw [hr] at h
    exact h
  · rw [hr] at h
    obtain ⟨rfl, hfault⟩ := h
    exact hnext a line fault hfault

theorem Stops.andThen {next : α → Reading β} (h : Stops starts read c e before after)
    (hnext : EndsWell next) : Stops starts (read.andThen next) c e before after where
  text := h.text
  line := h.line
  settled := fun b hb more => Reading.andThen_of_error next (h.settled b hb more)
  unsettled := h.unsettled.imp fun _ ⟨hstarts, hdeparts⟩ => ⟨hstarts, hdeparts.andThen hnext⟩

/-- **After what is taken**, the next reading stops where it does. -/
theorem Takes.stops {next : α → Reading β} (h : Takes ends read c a c' taken)
    (hnext : Stops ends (next a) c' e before after) :
    Stops starts (read.andThen next) c e (taken ++ before) after := by
  obtain ⟨s, line⟩ := c
  obtain rfl : s = taken ++ c'.rest := h.text
  exact hnext.behind h.line (fun t ht => Reading.andThen_of_ok next (h.reads t ht))
    fun hnil => absurd hnil h.ne_nil

theorem Takes.andThen {next : α → Reading β} {b : β} {c'' : Cursor} {taken' : Bytes}
    (h : Takes ends read c a c' taken) (hnext : Takes ends' (next a) c' b c'' taken') :
    Takes ends' (read.andThen next) c b c'' (taken ++ taken') := by
  obtain ⟨s, line⟩ := c
  obtain rfl : s = taken ++ c'.rest := h.text
  exact hnext.behind h.line fun t ht => Reading.andThen_of_ok next (h.reads t (Or.inl ht))

/-- **Readings in sequence** stop where one of them does. -/
theorem Exact.stops_andThen {next : α → Reading β} (h : Exact starts ends read c)
    (hnext : ∀ a c' e, read c = .ok (a, c') → next a c' = .error e →
      ∃ before after, Stops ends (next a) c' e before after)
    (hend : EndsWell next) (he : read.andThen next c = .error e) :
    ∃ before after, Stops starts (read.andThen next) c e before after := by
  rcases hr : read c with e' | ⟨a, c'⟩
  · rw [Reading.andThen_of_error next hr] at he
    obtain rfl := Except.error.inj he
    obtain ⟨before, after, hstops⟩ := h.stops e' hr
    exact ⟨before, after, hstops.andThen hend⟩
  · rw [Reading.andThen_of_ok next hr] at he
    obtain ⟨taken, htakes⟩ := h.takes a c' hr
    obtain ⟨before, after, hstops⟩ := hnext a c' e hr he
    exact ⟨_, _, htakes.stops hstops⟩

/-- **Readings in sequence** are exact if each is where it begins. -/
theorem Exact.andThen {next : α → Reading β} (h : Exact starts ends read c)
    (hnext : ∀ a c', read c = .ok (a, c') → Exact ends ends' (next a) c')
    (hend : EndsWell next) : Exact starts ends' (read.andThen next) c where
  stops := fun _ he => h.stops_andThen (fun a c' e' hr => (hnext a c' hr).stops e') hend he
  takes := fun b c'' hread => by
    rcases hr : read c with e' | ⟨a, c'⟩
    · rw [Reading.andThen_of_error next hr] at hread
      cases hread
    · rw [Reading.andThen_of_ok next hr] at hread
      obtain ⟨taken, htakes⟩ := h.takes a c' hr
      obtain ⟨taken', htakes'⟩ := (hnext a c' hr).takes b c'' hread
      exact ⟨_, htakes.andThen htakes'⟩

theorem Departs.map {fault : Fault} {r : Except ParseError (α × Cursor)} (f : α → β)
    (h : Departs fault r) : Departs fault (r.map (Prod.map f id)) := by
  rcases r with e | ⟨a, c⟩
  · exact h
  · exact h

/-- **What is made of the result** does not matter. -/
theorem Exact.map (f : α → β) (h : Exact starts ends read c) :
    Exact starts ends (fun c => (read c).map (Prod.map f id)) c where
  stops := fun e he => by
    rcases hr : read c with e' | r
    · rw [hr] at he
      obtain rfl := Except.error.inj he
      obtain ⟨before, after, hstops⟩ := h.stops e' hr
      refine ⟨before, after, hstops.text, hstops.line, fun b hb more => ?_,
        hstops.unsettled.imp fun more hmore => ⟨hmore.1, hmore.2.map f⟩⟩
      rw [hstops.settled b hb more]
      rfl
    · rw [hr] at he
      cases he
  takes := fun b c' hread => by
    obtain ⟨⟨a, c₁⟩, hr, heq⟩ := ok_of_map hread
    obtain ⟨rfl, rfl⟩ := Prod.mk.inj heq
    obtain ⟨taken, htakes⟩ := h.takes a c₁ hr
    refine ⟨taken, htakes.text, htakes.line, htakes.ne_nil, fun t ht => ?_⟩
    rw [htakes.reads t ht]
    rfl

/-- Where any text may follow, one that satisfies a condition may. -/
theorem Exact.weaken (h : Exact starts AnyText read c) : Exact starts ends read c :=
  ⟨h.stops, fun a c' hread => (h.takes a c' hread).imp fun _ ht =>
    ⟨ht.text, ht.line, ht.ne_nil, fun t _ => ht.reads t (Or.inr trivial)⟩⟩

end Toml

end DoctypeProbe
