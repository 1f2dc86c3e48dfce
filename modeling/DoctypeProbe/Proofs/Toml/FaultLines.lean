import DoctypeProbe.Proofs.Toml.FaultValues

/-!
# The Lines of Faults

The message that rejects a document names a line. The byte that the reader fails at can be told
without looking at the reader: what stands before it can still go on in another way, and with that
byte it cannot, whatever follows (`FailsBehind`). If there is no such byte, then the text has ended
too early. The line of that byte is one plus the number of line ends before it.

It is the line that is reported, but for one case. Four faults are found by moving past a byte, and
moving past a line end counts it: a section header or a string that its line breaks off, a key
without an equals sign on its line, and a backslash at the end of a line are all reported on the
next line. Every other fault is found by looking at a byte that is not moved past.

## Main results

* `Toml.exact_readStatement`, `Toml.exists_stops`: where statements and documents stop.
* `Toml.reported_line`: the line that is reported.
* `Toml.late_brokenHeader`: a fault on the first line that is reported on the second.
-/

namespace DoctypeProbe

namespace Toml

variable {s : Bytes} {line : Nat}

/-! ### Section headers -/

/-- The section that a path names is entered, or a fault is met, wherever the text goes on. -/
theorem enter_cases (state : State) (path : Bytes) (line : Nat) :
    (∃ fault, fault.movesPast = false ∧ fault ≠ .unterminatedSection ∧
      ∀ t, state.enter path ⟨t, line⟩ = .error ⟨line, fault⟩) ∨
    ∃ state', ∀ t, state.enter path ⟨t, line⟩ = .ok (state', ⟨t, line⟩) := by
  by_cases hpath : path = []
  · exact Or.inl ⟨.emptySection, rfl, by simp, fun t => by rw [State.enter, if_pos hpath]⟩
  · cases hopen : state.table.openSection (Table.keysOf path) with
    | error key =>
        refine Or.inl ⟨.notTable key path, rfl, by simp, fun t => ?_⟩
        rw [State.enter, if_neg hpath, hopen]
    | ok table =>
        refine Or.inr ⟨{ path := Table.keysOf path, table }, fun t => ?_⟩
        rw [State.enter, if_neg hpath, hopen]

theorem readSection_span (state : State) {inside : Bytes} {b : Byte}
    (hinside : ∀ b ∈ inside, isInside b = true) (hb : isInside b = false) (t : Bytes)
    (line : Nat) :
    readSection state ⟨inside ++ b :: t, line⟩ =
      if b = Ascii.closeBracket then state.enter (trim inside) ⟨t, line⟩
      else .error ⟨line + 1, .unterminatedSection⟩ := by
  obtain ⟨htake, hdrop⟩ := span_append (t := b :: t) hinside (forall_head?_of_eq_some rfl hb)
  rw [readSection_eq, htake, hdrop]

theorem readSection_inside (state : State) {inside : Bytes}
    (hinside : ∀ b ∈ inside, isInside b = true) (line : Nat) :
    readSection state ⟨inside, line⟩ = .error ⟨line, .unterminatedSection⟩ := by
  rw [readSection_eq, List.dropWhile_eq_nil_iff.mpr hinside]

/-- **A section header** ends with its bracket, and at the latest with its line. -/
theorem exact_readSection (state : State) (s : Bytes) (line : Nat) :
    Exact AnyText AnyText (readSection state) ⟨s, line⟩ := by
  have hinside : ∀ b ∈ s.takeWhile isInside, isInside b = true := fun _ => List.mem_takeWhile_imp
  have hcount := line_eq_of_not_mem (s.takeWhile isInside)
    (fun hlf => absurd (hinside _ hlf) (by decide)) line
  -- with a bracket in the place of a line end the header is closed
  have hdeparts : Departs .unterminatedSection
      (readSection state ⟨s.takeWhile isInside ++ [Ascii.closeBracket], line⟩) := by
    rw [readSection_span state hinside rfl, if_pos rfl]
    rcases enter_cases state (trim (s.takeWhile isInside)) line with
      ⟨fault, -, hne, henter⟩ | ⟨state', henter⟩
    · rw [henter]
      exact hne
    · rw [henter]
      exact ⟨rfl, nofun⟩
  have hsplit := (List.takeWhile_append_dropWhile (p := isInside) (l := s)).symm
  have hstop : ∀ b ∈ (s.dropWhile isInside).head?, isInside b = false :=
    fun _ => not_of_mem_head?_dropWhile
  generalize s.takeWhile isInside = inside at hinside hcount hdeparts hsplit
  cases hd : s.dropWhile isInside with
  | nil =>
      rw [hd, List.append_nil] at hsplit
      subst hsplit
      refine .unfinished ?_ [Ascii.closeBracket] (fun _ => trivial) hdeparts
      rw [readSection_inside state hinside, ← hcount]
  | cons b t =>
      rw [hd] at hsplit hstop
      have hb := hstop b rfl
      by_cases hclose : b = Ascii.closeBracket
      · rcases enter_cases state (trim inside) line with
          ⟨fault, hfault, hne, henter⟩ | ⟨state', henter⟩
        · have hread : ∀ u, readSection state ⟨inside ++ b :: u, line⟩ = .error ⟨line, fault⟩ :=
            fun u => by rw [readSection_span state hinside hb, if_pos hclose, henter]
          refine .faulty inside hsplit (hcount.trans (line_eq_of_looking hfault _ _)) hread []
            (fun _ => trivial) ?_
          rw [List.append_nil, readSection_inside state hinside]
          exact Ne.symm hne
        · refine .closed state' (by rw [hclose]; decide) hsplit fun u => ?_
          rw [readSection_span state hinside hb, if_pos hclose, henter, ← hcount]
      · have hlf : b = Ascii.lf := by
          simpa [isInside, hclose] using hb
        subst hlf
        have hread : ∀ u, readSection state ⟨inside ++ Ascii.lf :: u, line⟩ =
            .error ⟨line + 1, .unterminatedSection⟩ := fun u => by
          rw [readSection_span state hinside hb, if_neg hclose]
        refine .faulty inside hsplit ?_ hread [Ascii.closeBracket] (fun _ => trivial) hdeparts
        rw [← hcount]
        rfl

/-! ### Assignments -/

theorem skipWhile_span {p : Byte → Bool} {front t : Bytes} (h : (front ++ t).takeWhile p = front)
    (line : Nat) :
    Cursor.skipWhile ⟨front ++ t, line⟩ p = ⟨t, line + front.count Ascii.lf⟩ := by
  rw [Cursor.skipWhile, h, Cursor.forward, List.drop_left]

theorem skipSpaces_nil (line : Nat) : Cursor.skipSpaces ⟨[], line⟩ = ⟨[], line⟩ := rfl

/-- A text that begins with an equals sign. -/
def BeginsEquals (t : Bytes) : Prop := t.head? = some Ascii.equals

/-- **Behind a key** stands an equals sign, and then a value. -/
theorem exact_readAssigned (key s : Bytes) (line : Nat) :
    Exact BeginsEquals EndsToken (readAssigned key) ⟨s, line⟩ := by
  have hdeparts : Departs (.expectedEquals key) (readAssigned key ⟨[Ascii.equals], line⟩) := by
    rw [readAssigned_cons, if_pos rfl, skipSpaces_nil, readValue_nil]
    exact fun h => nomatch h
  cases s with
  | nil => exact .unfinished rfl [Ascii.equals] (fun _ => rfl) hdeparts
  | cons b s =>
      by_cases hb : b = Ascii.equals
      · subst hb
        have hspaces : ∀ t, t.head? = (s.dropWhile Cursor.isSpace).head? ∨ BeginsString t →
            readAssigned key ⟨Ascii.equals :: s.takeWhile Cursor.isSpace ++ t, line⟩ =
              (readValue ⟨t, line + (s.takeWhile Cursor.isSpace).count Ascii.lf⟩).map
                (Prod.map (key, ·) id) := fun t ht => by
          have hspan := span_resumes (p := Cursor.isSpace)
            (ht.imp_right fun h => forall_head?_of_eq_some h rfl)
          rw [List.cons_append, readAssigned_cons, if_pos rfl, Cursor.skipSpaces,
            skipWhile_span hspan.1]
        have hvalue := exact_readValue
          ⟨s.dropWhile Cursor.isSpace, line + (s.takeWhile Cursor.isSpace).count Ascii.lf⟩
        refine (hvalue.map (key, ·)).behind (Ascii.equals :: s.takeWhile Cursor.isSpace) ?_ ?_
          hspaces fun h => absurd h (List.cons_ne_nil _ _)
        · rw [List.cons_append, List.takeWhile_append_dropWhile]
        · rw [List.count_cons_of_ne (by decide)]
      · have hread : ∀ t, readAssigned key ⟨b :: t, line⟩ =
            .error ⟨Cursor.lineAfter line b, .expectedEquals key⟩ := fun t => by
          rw [readAssigned_cons, if_neg hb]
        exact .faulty [] rfl (lineAfter_eq rfl b s line) hread [Ascii.equals]
          (fun _ => rfl) hdeparts

/-- A key is followed by what is no part of it, and by what is no white space after that. -/
theorem readAssignment_span {key spaces t : Bytes} (hne : key ≠ [])
    (hkey : (key ++ (spaces ++ t)).takeWhile isKeyByte = key)
    (hspaces : (spaces ++ t).takeWhile Cursor.isSpace = spaces) (line : Nat) :
    readAssignment ⟨key ++ spaces ++ t, line⟩ =
      readAssigned key ⟨t, line + (key ++ spaces).count Ascii.lf⟩ := by
  rw [readAssignment_eq, List.append_assoc, hkey, if_neg hne, skipWhile_span hkey,
    Cursor.skipSpaces, skipWhile_span hspaces, List.count_append, Nat.add_assoc]

/-- No text. -/
def NoText (_ : Bytes) : Prop := False

/-- **An assignment** whose key is there. -/
theorem exact_readAssignment {s : Bytes} (hkey : s.takeWhile isKeyByte ≠ []) (line : Nat) :
    Exact NoText EndsToken readAssignment ⟨s, line⟩ := by
  have hafter : s.dropWhile isKeyByte = (s.dropWhile isKeyByte).takeWhile Cursor.isSpace ++
      (s.dropWhile isKeyByte).dropWhile Cursor.isSpace := List.takeWhile_append_dropWhile.symm
  have hread : ∀ t,
      t.head? = ((s.dropWhile isKeyByte).dropWhile Cursor.isSpace).head? ∨ BeginsEquals t →
      readAssignment ⟨s.takeWhile isKeyByte ++
          (s.dropWhile isKeyByte).takeWhile Cursor.isSpace ++ t, line⟩ =
        readAssigned (s.takeWhile isKeyByte) ⟨t, line + (s.takeWhile isKeyByte ++
          (s.dropWhile isKeyByte).takeWhile Cursor.isSpace).count Ascii.lf⟩ := by
    intro t ht
    have hspaces := span_resumes (p := Cursor.isSpace)
      (ht.imp_right fun h => forall_head?_of_eq_some h rfl)
    refine readAssignment_span hkey (span_resumes ?_).1 hspaces.1 line
    by_cases hnil : (s.dropWhile isKeyByte).takeWhile Cursor.isSpace = []
    · rw [hnil, List.nil_append] at hafter ⊢
      rw [← hafter] at ht
      exact ht.imp_right fun h => forall_head?_of_eq_some h rfl
    · refine Or.inl ?_
      conv_rhs => rw [hafter]
      exact head?_of_ne_nil hnil _ _
  refine (exact_readAssigned _ _ _).behind _ ?_ rfl hread
    fun h => absurd (List.append_eq_nil_iff.mp h).1 hkey
  rw [List.append_assoc, ← hafter, List.takeWhile_append_dropWhile]

/-! ### Statements -/

/-- A text that begins with an opening bracket. -/
def BeginsHeader (t : Bytes) : Prop := t.head? = some Ascii.openBracket

/-- **A statement.** -/
theorem exact_readStatement (state : State) (b : Byte) (s : Bytes) (line : Nat) :
    Exact BeginsHeader EndsToken (readStatement state) ⟨b :: s, line⟩ := by
  by_cases hb : b = Ascii.openBracket
  · refine (exact_readSection state s line).weaken.behind [b] rfl ?_ (fun t _ => ?_)
      fun h => absurd h (List.cons_ne_nil _ _)
    · exact line_eq_of_not_mem [b] (by rw [hb]; decide) line
    · rw [List.singleton_append, readStatement_cons, if_pos hb]
  · have hread : ∀ t, readStatement state ⟨b :: t, line⟩ = _ := fun t => by
      rw [readStatement_cons, if_neg hb]
    by_cases hkey : (b :: s).takeWhile isKeyByte = []
    · have hbyte : ¬isKeyByte b = true := by simpa using hkey
      have hfault : ∀ t, readStatement state ⟨b :: t, line⟩ = .error ⟨line, .expectedKey⟩ :=
        fun t => by
          rw [hread, readAssignment_eq, List.takeWhile_cons_of_neg hbyte, if_pos rfl]
          rfl
      refine .faulty [] rfl (line_eq_of_looking rfl _ _) hfault [Ascii.openBracket]
        (fun _ => rfl) ?_
      rw [List.nil_append, readStatement_cons, if_pos rfl,
        readSection_inside state (List.forall_mem_nil _)]
      exact fun h => nomatch h
    · refine ((exact_readAssignment hkey line).map state.assigned).behind [] rfl rfl
        (fun t ht => ?_) fun _ _ h => h.elim
      obtain ⟨t, rfl⟩ := List.head?_eq_some_iff.mp (ht.resolve_right id)
      exact hread t

theorem length_readStatement {state state' : State} {c c' : Cursor}
    (h : readStatement state c = .ok (state', c')) : c'.rest.length < c.rest.length :=
  length_lt_of_outcome h

/-- A statement does not change where the text ends. -/
theorem atEnd_readStatement {state state' : State} {c c' : Cursor} (hc : c.rest ≠ [])
    (h : readStatement state c = .ok (state', c')) : c'.atEnd = c.atEnd := by
  obtain ⟨s, line⟩ := c
  obtain ⟨b, s, rfl⟩ := List.exists_cons_of_ne_nil hc
  obtain ⟨taken, htakes⟩ := (exact_readStatement state b s line).takes state' c' h
  rw [Cursor.atEnd, Cursor.atEnd, htakes.text, htakes.line, List.count_append, Nat.add_assoc]

/-! ### Documents -/

/-- Statements are read where something stands that is not to be skipped. -/
theorem readLines_gap (state : State) {s t : Bytes} (hs : afterBlank s ≠ []) (ht : BlankEnd t)
    (line : Nat) :
    readLines state ⟨gap s ++ t, line⟩ =
      (readStatement state).andThen readRest ⟨t, line + (gap s).count Ascii.lf⟩ := by
  have hskip := skipBlank_gap hs ht line
  have hrest : afterBlank (gap s ++ t) = t := congrArg Cursor.rest hskip
  have hne : t ≠ [] := by
    obtain ⟨b, u, rfl, -⟩ := ht
    exact List.cons_ne_nil b u
  rw [readLines_of_cons state (by rw [hrest]; exact hne), hskip]
  intro state' c' h
  rw [hskip] at h
  rw [atEnd_readStatement hne h, ← hskip, Cursor.atEnd_skipBlank]

/-- A line that ends does so before what is not to be skipped. -/
theorem endsLine_gap {t u : Bytes} (ht : BlankEnd t) {front : Bytes}
    (h : endsLine (front ++ t) = true) : front ≠ [] ∧ endsLine (front ++ u) = true := by
  induction front with
  | nil =>
      obtain ⟨b, v, rfl, hblank, hhash⟩ := ht
      rw [Bool.or_eq_true, not_or] at hblank
      rw [List.nil_append, endsLine_cons, if_neg hblank.1, Bool.or_eq_true, beq_iff_eq] at h
      exact absurd h (not_or.mpr ⟨hhash, hblank.2⟩)
  | cons b front ih =>
      refine ⟨List.cons_ne_nil _ _, ?_⟩
      rw [List.cons_append, endsLine_cons] at h ⊢
      split_ifs at h ⊢
      · exact (ih h).2
      · exact h

theorem endsWell_readRest : EndsWell readRest := fun state line fault hfault => by
  rw [readRest_of_endsLine state rfl, readLines_of_nil state rfl]
  exact ⟨rfl, hfault⟩

/-- **Behind blanks** a document stops at the statement that stands there, or below. -/
theorem exists_stops_gap {starts : Bytes → Prop} {whole : Reading Table} (state : State)
    {s : Bytes} {line : Nat} {e : ParseError} (hs : afterBlank s ≠ [])
    (hwhole : ∀ t, BlankEnd t → whole ⟨gap s ++ t, line⟩ =
      (readStatement state).andThen readRest ⟨t, line + (gap s).count Ascii.lf⟩)
    (hstarts : gap s = [] → ∀ t, BeginsHeader t → starts t)
    (hrest : ∀ t state' line' e', t.length < s.length → readRest state' ⟨t, line'⟩ = .error e' →
      ∃ before after, Stops EndsToken (readRest state') ⟨t, line'⟩ e' before after)
    (he : whole ⟨s, line⟩ = .error e) :
    ∃ before after, Stops starts whole ⟨s, line⟩ e before after := by
  have hend := blankEnd_afterBlank hs
  have hlength := length_afterBlank_le s
  have hcons : ∃ b t, afterBlank s = b :: t := List.exists_cons_of_ne_nil hs
  have hsplit := gap_append s
  rw [← hsplit, hwhole _ hend] at he
  obtain ⟨b, t, ht⟩ := hcons
  rw [ht] at he hend hlength
  have hstatement := exact_readStatement state b t (line + (gap s).count Ascii.lf)
  obtain ⟨before, after, hstops⟩ := hstatement.stops_andThen
    (fun state' c' e' hr he' => hrest c'.rest state' c'.line e'
      (Nat.lt_of_lt_of_le (length_readStatement hr) hlength) he') endsWell_readRest he
  have hbehind := hstops.behind rfl (fun u hu => hwhole u ?_) hstarts
  · dsimp only at hbehind
    rw [← ht, hsplit] at hbehind
    exact ⟨_, _, hbehind⟩
  · rcases hu with hu | hu
    · exact hend.of_head? hu
    · exact (blankEnd_cons (b := Ascii.openBracket) (by decide) []).of_head? hu

/-- What stands on a line behind a statement, and does not belong there. -/
theorem exact_trailing (state : State) {s : Bytes} (hs : endsLine s = false) (line : Nat) :
    Exact EndsToken AnyText (readRest state) ⟨s, line⟩ := by
  have hspaces : ∀ b ∈ s.takeWhile Cursor.isSpace, Cursor.isSpace b = true :=
    fun _ => List.mem_takeWhile_imp
  have hsplit := (List.takeWhile_append_dropWhile (p := Cursor.isSpace) (l := s)).symm
  have hstop : ∀ b ∈ (s.dropWhile Cursor.isSpace).head?, Cursor.isSpace b = false :=
    fun _ => not_of_mem_head?_dropWhile
  generalize s.takeWhile Cursor.isSpace = front at hspaces hsplit
  cases hd : s.dropWhile Cursor.isSpace with
  | nil =>
      rw [endsLine, hd] at hs
      cases hs
  | cons b t =>
      rw [endsLine, hd] at hs
      rw [hd] at hsplit hstop
      have hread : ∀ u, readRest state ⟨front ++ b :: u, line⟩ =
          .error ⟨line + front.count Ascii.lf, .trailing⟩ := fun u =>
        readRest_of_trailing state hspaces (hstop b rfl) hs line
      refine .faulty front hsplit (line_eq_of_looking rfl _ _) hread []
        (fun _ _ hb => by cases hb) ?_
      -- without it the line ends behind the white space, and with it the text
      have hblank : afterBlank front = [] := by
        rw [← afterBlank_dropSpaces, List.dropWhile_eq_nil_iff.mpr hspaces]
        rfl
      have hover : endsLine front = true := by
        rw [endsLine, List.dropWhile_eq_nil_iff.mpr hspaces]
        rfl
      rw [List.append_nil, readRest_of_endsLine state hover, readLines_of_nil state hblank]
      exact ⟨rfl, by simp⟩

/-- **Where documents stop.** Induction on the length of the text that is left. -/
theorem exists_stops (s : Bytes) (state : State) (line : Nat) (e : ParseError) :
    (readLines state ⟨s, line⟩ = .error e →
      ∃ before after, Stops AnyText (readLines state) ⟨s, line⟩ e before after) ∧
    (readRest state ⟨s, line⟩ = .error e →
      ∃ before after, Stops EndsToken (readRest state) ⟨s, line⟩ e before after) := by
  induction hn : s.length using Nat.strongRecOn generalizing s state line e with
  | ind n ih =>
      have hrest : ∀ t state' line' e', t.length < s.length →
          readRest state' ⟨t, line'⟩ = .error e' →
          ∃ before after, Stops EndsToken (readRest state') ⟨t, line'⟩ e' before after :=
        fun t state' line' e' ht => (ih _ (hn ▸ ht) t state' line' e' rfl).2
      -- a document that is over has no fault
      have hover : afterBlank s = [] → readLines state ⟨s, line⟩ ≠ .error e := fun hs h => by
        rw [readLines_of_nil state hs] at h
        cases h
      constructor
      · intro he
        have hs : afterBlank s ≠ [] := fun hs => hover hs he
        exact exists_stops_gap state hs (fun t ht => readLines_gap state hs ht line)
          (fun _ _ _ => trivial) hrest he
      · intro he
        cases hends : endsLine s with
        | false => exact (exact_trailing state hends line).stops e he
        | true =>
            have hs : afterBlank s ≠ [] := fun hs =>
              hover hs ((readRest_of_endsLine state (c := ⟨s, line⟩) hends).symm.trans he)
            have hgap : ∀ u, gap s ≠ [] ∧ endsLine (gap s ++ u) = true := fun u =>
              endsLine_gap (blankEnd_afterBlank hs) (by rwa [gap_append])
            refine exists_stops_gap state hs (fun t ht => ?_)
              (fun h => absurd h (hgap []).1) hrest he
            rw [readRest_of_endsLine state (hgap t).2, readLines_gap state hs ht]

/-! ### The line that is reported -/

/-- With this much of a document, `e` is reported whatever follows. -/
def Settles (opening : Bytes) (e : ParseError) : Prop := ∀ more, parse (opening ++ more) = .error e

/-- The reader fails at what follows `before` in a text: so much of the text can still go on in
another way, and with one more byte it cannot. If no byte follows, the text has ended too early. -/
structure FailsBehind (text : Bytes) (e : ParseError) (before : Bytes) : Prop where
  opening : before <+: text
  unsettled : ¬Settles before e
  settled : ∀ b, before ++ [b] <+: text → Settles (before ++ [b]) e

theorem Settles.append {opening : Bytes} {e : ParseError} (h : Settles opening e) (more : Bytes) :
    Settles (opening ++ more) e := fun more' => by
  rw [List.append_assoc]
  exact h _

/-- The longer of two openings begins with the shorter and the byte behind it. -/
theorem FailsBehind.not_shorter {text before before' : Bytes} {e : ParseError}
    (h : FailsBehind text e before) (h' : FailsBehind text e before')
    (hlength : before.length < before'.length) : False := by
  obtain ⟨rest, rfl⟩ := List.prefix_of_prefix_length_le h.opening h'.opening hlength.le
  rcases rest with - | ⟨b, rest⟩
  · simp at hlength
  · have hb : before ++ b :: rest = before ++ [b] ++ rest := by simp
    have hopening := h'.opening
    rw [hb] at hopening
    have hsettles := (h.settled b ((List.prefix_append _ _).trans hopening)).append rest
    exact h'.unsettled (hb ▸ hsettles)

theorem FailsBehind.unique {text before before' : Bytes} {e : ParseError}
    (h : FailsBehind text e before) (h' : FailsBehind text e before') : before = before' := by
  rcases Nat.lt_trichotomy before.length before'.length with hlt | heq | hlt
  · exact (h.not_shorter h' hlt).elim
  · exact (List.prefix_of_prefix_length_le h.opening h'.opening heq.le).eq_of_length heq
  · exact (h'.not_shorter h hlt).elim

theorem parse_of_readLines_error {text : Bytes} {e : ParseError}
    (h : readLines {} ⟨text, 1⟩ = .error e) : parse text = .error e := by
  rw [parse_eq, h]
  rfl

theorem parse_ne_of_departs {text : Bytes} {e : ParseError}
    (h : Departs e.fault (readLines {} ⟨text, 1⟩)) : parse text ≠ .error e := by
  rw [parse_eq]
  rcases hr : readLines {} ⟨text, 1⟩ with e' | r
  · rw [hr] at h
    rintro he
    obtain rfl := Except.error.inj he
    exact h rfl
  · nofun

/-- **Where a document fails** is where its reading stops. -/
theorem exists_failsBehind {text : Bytes} {e : ParseError} (h : parse text = .error e) :
    ∃ before after, text = before ++ after ∧ FailsBehind text e before ∧
      e.line = 1 + before.count Ascii.lf + e.fault.late after := by
  have he : readLines {} ⟨text, 1⟩ = .error e := by
    rw [parse_eq] at h
    rcases hr : readLines {} ⟨text, 1⟩ with e' | r
    · rw [hr] at h
      rw [Except.error.inj h]
    · rw [hr] at h
      cases h
  obtain ⟨before, after, hstops⟩ := (exists_stops text {} 1 e).1 he
  have htext : text = before ++ after := hstops.text
  refine ⟨before, after, htext, ⟨⟨after, htext.symm⟩, fun hsettles => ?_, ?_⟩, hstops.line⟩
  · obtain ⟨more, -, hdeparts⟩ := hstops.unsettled
    exact parse_ne_of_departs hdeparts (hsettles more)
  · rintro b hb more
    rw [htext, List.prefix_append_right_inj] at hb
    obtain ⟨rest, rfl⟩ := hb
    rw [List.append_assoc]
    exact parse_of_readLines_error (hstops.settled b rfl more)

/-- **The line that is reported.** Every document that is rejected fails behind one of its openings.
The line reported is one plus the number of line ends in that opening; but it is one more if the
next byte is a line end, and the fault is found by moving past it. So a header, a string or an
assignment that the end of its line breaks off is reported on the next line. -/
theorem reported_line {text : Bytes} {e : ParseError} (h : parse text = .error e) :
    (∃! before, FailsBehind text e before) ∧ ∀ before, FailsBehind text e before →
      e.line = 1 + before.count Ascii.lf +
        if e.fault.movesPast = true ∧ before ++ [Ascii.lf] <+: text then 1 else 0 := by
  obtain ⟨before, after, htext, hfails, hline⟩ := exists_failsBehind h
  refine ⟨⟨before, hfails, fun other hother => hother.unique hfails⟩, fun other hother => ?_⟩
  obtain rfl := hfails.unique hother
  have hnext : before ++ [Ascii.lf] <+: text ↔ after.head? = some Ascii.lf := by
    rw [htext, List.prefix_append_right_inj, List.head?_eq_some_iff]
    exact ⟨fun ⟨t, ht⟩ => ⟨t, ht.symm⟩, fun ⟨t, ht⟩ => ⟨t, ht.symm⟩⟩
  rw [hline, Fault.late]
  simp only [hnext]

/-! ### Samples -/

theorem readLines_of_blankEnd (state : State) {s : Bytes} (hs : BlankEnd s) (line : Nat) :
    readLines state ⟨s, line⟩ = (readStatement state).andThen readRest ⟨s, line⟩ := by
  have hgap : gap s = [] := hs.blank
  have hafter : afterBlank s ≠ [] := by
    obtain ⟨b, u, rfl, -⟩ := id hs
    have hsplit := gap_append (b :: u)
    rw [hgap, List.nil_append] at hsplit
    rw [hsplit]
    exact List.cons_ne_nil b u
  have hread := readLines_gap state hafter hs line
  rwa [hgap] at hread

/-- A section header is read where a document begins with one. -/
theorem parse_header {s : Bytes} {e : ParseError} (h : readSection {} ⟨s, 1⟩ = .error e) :
    parse (Ascii.openBracket :: s) = .error e := by
  refine parse_of_readLines_error ?_
  rw [readLines_of_blankEnd {} (blankEnd_cons (by decide) s)]
  exact Reading.andThen_of_error _ (by rw [readStatement_cons, if_pos rfl, h])

/-- A section header that its line breaks off. -/
def brokenHeader : Bytes := ascii "[a\n"

/-- What is reported of it. -/
def brokenHeaderError : ParseError := ⟨2, .unterminatedSection⟩

/-- **A fault on the first line that is reported on the second**: the header ends with its line. -/
theorem late_brokenHeader :
    parse brokenHeader = .error brokenHeaderError ∧
      brokenHeaderError.message = ascii "TOML parse error at line 2: unterminated section header" ∧
      FailsBehind brokenHeader brokenHeaderError (ascii "[a") ∧
      brokenHeaderError.line ≠ 1 + (ascii "[a").count Ascii.lf := by
  have hinside : ∀ b ∈ ascii "a", isInside b = true := by decide +kernel
  have hbroken : ∀ more, parse (brokenHeader ++ more) = .error brokenHeaderError := fun more =>
    parse_header (readSection_span {} hinside (by decide) more 1)
  have hwhole := hbroken []
  rw [List.append_nil] at hwhole
  refine ⟨hwhole, by decide +kernel, ⟨by decide +kernel, fun hsettles => ?_, fun b hb more => ?_⟩,
    by decide +kernel⟩
  · -- the end of the text is reported on its line
    have hend : parse (ascii "[a") = .error ⟨1, .unterminatedSection⟩ :=
      parse_header (readSection_inside {} hinside 1)
    have hnil := hsettles []
    rw [List.append_nil, hend] at hnil
    exact absurd (congrArg ParseError.line (Except.error.inj hnil)) (by decide)
  · have hlf : b = Ascii.lf := by
      obtain ⟨t, ht⟩ := hb
      exact Option.some.inj (congrArg (·[2]?) ht)
    rw [hlf]
    exact hbroken more

/-- A document with a value that is none, on its third line. -/
def invalidThirdLine : Bytes := ascii "# a\n\nb = ?\n"

theorem readAssignment_question (line : Nat) :
    readAssignment ⟨ascii "b = ?\n", line⟩ = .error ⟨line, .invalidValue⟩ := by
  have hkey : (ascii "b" ++ (ascii " " ++ ascii "= ?\n")).takeWhile isKeyByte = ascii "b" := by
    decide +kernel
  have hspaces : (ascii " " ++ ascii "= ?\n").takeWhile Cursor.isSpace = ascii " " := by
    decide +kernel
  have hvalue : readValue ⟨ascii "?\n", line⟩ = .error ⟨line, .invalidValue⟩ :=
    (readValue_cons 0x3F [Ascii.lf] line).trans
      (readScalar_invalid (by decide) (by decide) (by decide) ⟨[Ascii.lf], line⟩)
  refine (readAssignment_span (by decide +kernel) hkey hspaces line).trans ?_
  exact (readAssigned_cons (ascii "b") Ascii.equals (ascii " ?\n") line).trans
    (congrArg (Except.map (Prod.map (ascii "b", ·) id)) hvalue)

theorem reported_line_invalidThirdLine :
    parse invalidThirdLine = .error ⟨3, .invalidValue⟩ ∧
      ∃ before, FailsBehind invalidThirdLine ⟨3, .invalidValue⟩ before ∧
        before.count Ascii.lf = 2 := by
  have hstatement : readStatement {} ⟨ascii "b = ?\n", 3⟩ = .error ⟨3, .invalidValue⟩ :=
    (readStatement_cons {} 0x62 (ascii " = ?\n") 3).trans
      (congrArg (Except.map _) (readAssignment_question 3))
  have hparse : parse invalidThirdLine = .error ⟨3, .invalidValue⟩ := by
    refine parse_of_readLines_error ?_
    refine (readLines_gap {} (s := invalidThirdLine) (t := ascii "b = ?\n") (by decide +kernel)
      (blankEnd_cons (b := 0x62) (by decide) (ascii " = ?\n")) 1).trans ?_
    exact Reading.andThen_of_error _ hstatement
  obtain ⟨⟨before, hfails, -⟩, hline⟩ := reported_line hparse
  have hcount := hline before hfails
  rw [if_neg fun h => Bool.false_ne_true h.1] at hcount
  exact ⟨hparse, before, hfails, by simp only at hcount; omega⟩

end Toml

end DoctypeProbe
