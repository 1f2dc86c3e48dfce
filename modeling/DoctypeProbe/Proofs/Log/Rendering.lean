import DoctypeProbe.Proofs.Log.Delivery

/-!
# What a Compiled Format Renders

A format is a sequence of parts: bytes that are shown as they are, percent signs among them, and
places of values. The parts are found from the left, and found in the format alone, so no value that
is put in a place is ever looked at for parts.

Compiling gathers the bytes between two places into one segment. Until a segment is complete its
text is pending; whatever is pending, the segments show it first and then the parts of the rest of
the format. So a compiled format shows its parts, and so does the format interpreted from left to
right.

## Main results

* `Log.Format.Spells.compileFrom`: compiling shows what is pending, and the parts of the rest.
* `Log.Format.exists_spells`, `Log.Format.Spells.unique`: a format has its parts in one way.
* `Log.Format.render_compile`: compiled formats, formats interpreted directly, and whole runs.
-/

namespace DoctypeProbe

namespace Log

namespace Format

/-! ### The parts of a format -/

/-- A format consists of parts. A percent sign stands for itself if another one follows, which it
takes with it, and if neither a placeholder nor a percent sign follows. -/
inductive Spells : Bytes → List Segment → Prop
  | nil : Spells [] []
  /-- Two percent signs show one. -/
  | escaped {s : Bytes} {parts : List Segment} (h : Spells s parts) :
      Spells (Ascii.percent :: Ascii.percent :: s) (.literal [Ascii.percent] :: parts)
  /-- A placeholder shows its value. -/
  | placeholder {c : Byte} {p : Placeholder} {s : Bytes} {parts : List Segment}
      (hp : Placeholder.ofByte? c = some p) (h : Spells s parts) :
      Spells (Ascii.percent :: c :: s) (.field p :: parts)
  /-- A percent sign before any other byte, or at the end, shows itself. -/
  | lone {s : Bytes} {parts : List Segment}
      (hs : ∀ c ∈ s.head?, Placeholder.ofByte? c = none ∧ c ≠ Ascii.percent) (h : Spells s parts) :
      Spells (Ascii.percent :: s) (.literal [Ascii.percent] :: parts)
  /-- Any other byte shows itself. -/
  | plain {b : Byte} {s : Bytes} {parts : List Segment} (hb : b ≠ Ascii.percent)
      (h : Spells s parts) : Spells (b :: s) (.literal [b] :: parts)

/-- The text of parts for a record, in order. -/
def shown (f : Fields) (parts : List Segment) : Bytes := parts.flatMap (segmentText f)

theorem shown_cons (f : Fields) (part : Segment) (parts : List Segment) :
    shown f (part :: parts) = segmentText f part ++ shown f parts := List.flatMap_cons

/-- A percent sign names no placeholder. -/
theorem ofByte?_percent : Placeholder.ofByte? Ascii.percent = none := by decide

variable {s : Bytes} {parts : List Segment}

/-! ### Step by step -/

theorem shown_literal (f : Fields) (text : Bytes) (segments : List Segment) :
    shown f (literal text ++ segments) = text ++ shown f segments := by
  rw [literal]
  cases text with
  | nil => rfl
  | cons b text => exact shown_cons f _ _

theorem compileFrom_nil (pending : Bytes) : compileFrom pending [] = literal pending := rfl

theorem compileFrom_escaped (pending s : Bytes) :
    compileFrom pending (Ascii.percent :: Ascii.percent :: s) =
      compileFrom (pending ++ [Ascii.percent]) s := by
  rw [compileFrom, if_pos rfl, ofByte?_percent]
  exact if_pos rfl

theorem compileFrom_placeholder {c : Byte} {p : Placeholder} (hp : Placeholder.ofByte? c = some p)
    (pending s : Bytes) :
    compileFrom pending (Ascii.percent :: c :: s) =
      literal pending ++ .field p :: compileFrom [] s := by
  rw [compileFrom, if_pos rfl, hp]

theorem compileFrom_lone
    (hs : ∀ c ∈ s.head?, Placeholder.ofByte? c = none ∧ c ≠ Ascii.percent) (pending : Bytes) :
    compileFrom pending (Ascii.percent :: s) = compileFrom (pending ++ [Ascii.percent]) s := by
  cases s with
  | nil => rfl
  | cons c s =>
      obtain ⟨hnone, hc⟩ := hs c rfl
      rw [compileFrom, if_pos rfl, hnone]
      exact if_neg hc

theorem compileFrom_plain {b : Byte} (hb : b ≠ Ascii.percent) (pending s : Bytes) :
    compileFrom pending (b :: s) = compileFrom (pending ++ [b]) s := by
  cases s with
  | nil => rfl
  | cons c s => rw [compileFrom, if_neg hb]

theorem interpret_escaped (f : Fields) (s : Bytes) :
    interpret f (Ascii.percent :: Ascii.percent :: s) = Ascii.percent :: interpret f s := by
  rw [interpret, if_pos rfl, ofByte?_percent]
  exact if_pos rfl

theorem interpret_placeholder {c : Byte} {p : Placeholder} (hp : Placeholder.ofByte? c = some p)
    (f : Fields) (s : Bytes) :
    interpret f (Ascii.percent :: c :: s) = f.value p ++ interpret f s := by
  rw [interpret, if_pos rfl, hp]

theorem interpret_lone
    (hs : ∀ c ∈ s.head?, Placeholder.ofByte? c = none ∧ c ≠ Ascii.percent) (f : Fields) :
    interpret f (Ascii.percent :: s) = Ascii.percent :: interpret f s := by
  cases s with
  | nil => rfl
  | cons c s =>
      obtain ⟨hnone, hc⟩ := hs c rfl
      rw [interpret, if_pos rfl, hnone]
      exact if_neg hc

theorem interpret_plain {b : Byte} (hb : b ≠ Ascii.percent) (f : Fields) (s : Bytes) :
    interpret f (b :: s) = b :: interpret f s := by
  cases s with
  | nil => rfl
  | cons c s => rw [interpret, if_neg hb]

/-! ### Both ways of rendering -/

/-- **Compiling** shows what is pending, and behind it the parts of the rest. -/
theorem Spells.compileFrom (h : Spells s parts) (f : Fields) (pending : Bytes) :
    shown f (compileFrom pending s) = pending ++ shown f parts := by
  induction h generalizing pending with
  | nil => simpa [compileFrom_nil] using shown_literal f pending []
  | escaped _ ih => rw [compileFrom_escaped, ih, List.append_assoc, shown_cons, segmentText]
  | placeholder hp _ ih =>
      rw [compileFrom_placeholder hp, shown_literal, shown_cons, shown_cons, ih, List.nil_append]
  | lone hs _ ih => rw [compileFrom_lone hs, ih, List.append_assoc, shown_cons, segmentText]
  | plain hb _ ih => rw [compileFrom_plain hb, ih, List.append_assoc, shown_cons, segmentText]

/-- **Interpreting** a format shows its parts. -/
theorem Spells.interpret (h : Spells s parts) (f : Fields) : interpret f s = shown f parts := by
  induction h with
  | nil => rfl
  | escaped _ ih => rw [interpret_escaped, ih, shown_cons, segmentText, List.singleton_append]
  | placeholder hp _ ih => rw [interpret_placeholder hp, ih, shown_cons, segmentText]
  | lone hs _ ih => rw [interpret_lone hs, ih, shown_cons, segmentText, List.singleton_append]
  | plain hb _ ih => rw [interpret_plain hb, ih, shown_cons, segmentText, List.singleton_append]

/-- **A format has parts.** Induction on its length: the first part is of one byte or two. -/
theorem exists_spells (s : Bytes) : ∃ parts, Spells s parts := by
  induction hn : s.length using Nat.strongRecOn generalizing s with
  | ind n ih =>
      have hrest : ∀ t : Bytes, t.length < s.length → ∃ parts, Spells t parts :=
        fun t ht => ih _ (hn ▸ ht) t rfl
      rcases s with - | ⟨b, s⟩
      · exact ⟨[], .nil⟩
      · obtain ⟨parts, hparts⟩ := hrest s (Nat.lt_succ_self _)
        by_cases hb : b = Ascii.percent
        · subst hb
          rcases s with - | ⟨c, s⟩
          · exact ⟨_, .lone nofun hparts⟩
          · obtain ⟨parts', hparts'⟩ :=
              hrest s (Nat.lt_succ_of_lt (Nat.lt_succ_self _))
            by_cases hc : c = Ascii.percent
            · subst hc
              exact ⟨_, .escaped hparts'⟩
            · cases hp : Placeholder.ofByte? c with
              | some p => exact ⟨_, .placeholder hp hparts'⟩
              | none =>
                  refine ⟨_, .lone ?_ hparts⟩
                  rintro _ ⟨⟩
                  exact ⟨hp, hc⟩
        · exact ⟨_, .plain hb hparts⟩

/-- **A format has its parts in one way.** -/
theorem Spells.unique {other : List Segment} (h : Spells s parts) (h' : Spells s other) :
    other = parts := by
  induction h generalizing other with
  | nil =>
      cases h'
      rfl
  | escaped _ ih =>
      cases h' with
      | escaped h' => rw [ih h']
      | placeholder hp => rw [ofByte?_percent] at hp; cases hp
      | lone hs => exact absurd rfl (hs _ rfl).2
      | plain hb => exact absurd rfl hb
  | placeholder hp _ ih =>
      cases h' with
      | escaped => rw [ofByte?_percent] at hp; cases hp
      | placeholder hp' h' => rw [Option.some.inj (hp'.symm.trans hp), ih h']
      | lone hs => rw [(hs _ rfl).1] at hp; cases hp
      | plain hb => exact absurd rfl hb
  | lone hs _ ih =>
      cases h' with
      | escaped => exact absurd rfl (hs _ rfl).2
      | placeholder hp => rw [(hs _ rfl).1] at hp; cases hp
      | lone _ h' => rw [ih h']
      | plain hb => exact absurd rfl hb
  | plain hb _ ih =>
      cases h' with
      | plain _ h' => rw [ih h']
      | escaped | placeholder | lone => exact absurd rfl hb

/-- A compiled format shows what interpreting the format shows. -/
theorem shown_compile (f : Fields) (format : Bytes) :
    shown f (compile format) = interpret f format := by
  obtain ⟨parts, hparts⟩ := exists_spells format
  rw [compile, hparts.compileFrom, hparts.interpret, List.nil_append]

/-! ### Texts as formats -/

/-- A text with every percent sign in it doubled. -/
def doubled (text : Bytes) : Bytes :=
  text.flatMap fun b => if b = Ascii.percent then [Ascii.percent, Ascii.percent] else [b]

/-- A doubled text has the bytes of the text as its parts. -/
theorem spells_doubled (text : Bytes) :
    Spells (doubled text) (text.map fun b => .literal [b]) := by
  induction text with
  | nil => exact .nil
  | cons b text ih =>
      rw [doubled, List.flatMap_cons, List.map_cons]
      by_cases hb : b = Ascii.percent
      · subst hb
        exact .escaped ih
      · rw [if_neg hb]
        exact .plain hb ih

/-- **A doubled text** is the text as a format. -/
theorem interpret_doubled (f : Fields) (text : Bytes) : interpret f (doubled text) = text := by
  rw [(spells_doubled text).interpret f, shown, List.flatMap_map]
  exact List.flatMap_singleton' text

end Format

/-! ### Whole runs -/

/-- What a format can show of a record that is logged behind calls. -/
def fieldsAfter (calls : List Call) (stamp : Stamp) (record : Record) (location : Location) :
    Fields where
  timestamp := Timestamp.text (timeFormatAfter calls) stamp.moment
  thread := hex16 stamp.thread
  record
  location

/-- The line of a record behind calls is the format in force, interpreted directly. -/
theorem lineAfter_eq_interpret (calls : List Call) (stamp : Stamp) (record : Record)
    (location : Location) :
    lineAfter calls stamp record location =
      Format.interpret (fieldsAfter calls stamp record location) (formatAfter calls) ++
        [Ascii.lf] := by
  rw [← Format.shown_compile]
  rfl

/-- **Compiling a format changes nothing.**

* A format has its parts in one way, which no record has a say in: values are put in places as they
  are. Interpreted from left to right it shows its parts.
* Compiled and rendered, it shows the same, and ends the line.
* A text with its percent signs doubled shows the text.
* In every run of a logger that has the format in force, a record that is not below the level is
  given out once, as the line that the format shows when it is interpreted directly. -/
theorem render_compile (format : Bytes) :
    (∃ parts, (∀ other, Format.Spells format other ↔ other = parts) ∧
      ∀ f, Format.interpret f format = parts.flatMap (Format.segmentText f)) ∧
    (∀ f, Format.render f (Format.compile format) = Format.interpret f format ++ [Ascii.lf]) ∧
    (∀ f text, Format.render f (Format.compile (Format.doubled text)) = text ++ [Ascii.lf]) ∧
    ∀ files calls stamp record location, formatAfter calls = format →
      let w := World.run files calls
      ¬record.level.code < w.logger.minLevel.code →
        Grows w (w.perform (.log stamp record location))
          [emissionAfter w.files calls record
            (Format.interpret (fieldsAfter calls stamp record location) format ++
              [Ascii.lf])] := by
  have hrender : ∀ f format, Format.render f (Format.compile format) =
      Format.interpret f format ++ [Ascii.lf] := fun f format =>
    congrArg (· ++ [Ascii.lf]) (Format.shown_compile f format)
  obtain ⟨parts, hparts⟩ := Format.exists_spells format
  refine ⟨⟨parts, fun other => ⟨hparts.unique, fun h => h ▸ hparts⟩, hparts.interpret⟩,
    fun f => hrender f format, fun f text => ?_, ?_⟩
  · rw [hrender, Format.interpret_doubled]
  · rintro files calls stamp record location rfl w hlevel
    rw [← lineAfter_eq_interpret]
    exact (inForce_run files calls).grows_log stamp location hlevel

/-- A format with a doubled percent sign, one before a byte that names nothing, right before a
placeholder, and one at the end. -/
def percentSample : Bytes := ascii "100%% %q%%%m %"

/-- Calls that put this format in force, and a format that is ignored. -/
def percentCalls : List Call := [.setFormat percentSample, .setFormat []]

/-- A message that looks like placeholders is shown as it is. -/
theorem render_compile_percentSample :
    formatAfter percentCalls = percentSample ∧
    ¬Level.error.code < (World.run {} percentCalls).logger.minLevel.code ∧
    ((World.run {} percentCalls).perform
      (.log sampleStamp ⟨.error, ascii "%L%%"⟩ {})).console = ascii "100% %q%%L%% %\n" := by
  have hformat : formatAfter percentCalls = percentSample := by decide +kernel
  have hlevel : ¬Level.error.code < (World.run {} percentCalls).logger.minLevel.code := by
    decide +kernel
  obtain ⟨-, -, -, hruns⟩ := render_compile percentSample
  have hgrows := hruns {} percentCalls sampleStamp ⟨.error, ascii "%L%%"⟩ {} hformat hlevel
  exact ⟨hformat, hlevel, hgrows.console.trans (by decide +kernel)⟩

end Log

end DoctypeProbe
