import DoctypeProbe.Proofs.Toml.Effects
import DoctypeProbe.Proofs.Toml.Writing
import Mathlib.Data.List.Pairwise

/-!
# Which Assignments Are Kept

A value that a document assigns to a path can be looked up at that path, unless something later
takes it away. A later assignment to the same path does, and so does one to a path that leads to
it: there a value takes the place of the table that the first value was in. The other way round, a
section at or below a path that has been assigned to makes the document be rejected.

So a conflict between a value and a table is found in one order only. Everything is kept, and no
path is both, in the documents where no assignment comes after a section that it blocks.

## Main results

* `Toml.kept_iff_nothing_overwritten`: which documents are accepted, and which assignments they
  keep.
* `Toml.not_kept_overwrittenSample`: an accepted document that loses an assignment.
-/

namespace DoctypeProbe

namespace Toml

/-- The table that a document denotes has the values of its assignments, as far as no later
assignment is to the same path. -/
def Kept (t : Table) (es : List Effect) : Prop :=
  ∀ before path value after, es = before ++ .assigns path value :: after →
    (∀ later, .assigns path later ∉ after) → t.atPath (Table.dotted path) = some value

/-- One path is needed both for a value and for a table. -/
def Conflicting (es : List Effect) : Prop := ∃ a ∈ es, ∃ b ∈ es, a.Blocks b

variable {path : List Bytes} {value : Node} {es before after : List Effect}

/-- **A value stays** while no later assignment is to its path or to one that leads to it. -/
theorem foldl_on_eq_value_iff {held : Held} (hsame : ∀ later, .assigns path later ∉ after)
    (hopen : ∀ path', .opens path' ∈ after → ¬path <+: path') :
    after.foldl (Effect.on path) held = .value value ↔
      held = .value value ∧ ∀ path' value', .assigns path' value' ∈ after → ¬path' <+: path := by
  induction after generalizing held with
  | nil => simp
  | cons e after ih =>
      simp only [List.mem_cons, not_or, forall_and] at hsame
      rw [List.foldl_cons, ih hsame.2 fun path' hp => hopen path' (List.mem_cons_of_mem _ hp)]
      cases e with
      | opens path' =>
          rw [Effect.on, if_neg (hopen path' List.mem_cons_self)]
          simp
      | assigns path' value' =>
          have hne : path ≠ path' := by
            rintro rfl
            exact hsame.1 value' rfl
          rw [Effect.on, if_neg hne]
          by_cases hp : path' <+: path
          · rw [if_pos hp]
            exact iff_of_false (by simp) fun h => h.2 path' value' List.mem_cons_self hp
          · rw [if_neg hp]
            refine and_congr_right fun _ => ?_
            constructor
            · intro h p v hmem
              rcases List.mem_cons.mp hmem with he | hmem
              · cases he
                exact hp
              · exact h p v hmem
            · exact fun h p v hmem => h p v (List.mem_cons_of_mem _ hmem)

/-- An assignment is to a key of the section it is in, which has been opened before. -/
theorem exists_of_effects_eq {base : List Bytes} {sts : List Statement}
    (hsts : ∀ st ∈ sts, st.Proper) (hdot : ∀ k ∈ base, Ascii.dot ∉ k)
    (h : effects base sts = before ++ .assigns path value :: after) :
    ∃ keys key, path = keys ++ [key] ∧ (∀ k ∈ keys, Ascii.dot ∉ k) ∧
      (Statement.assign key value).Proper ∧ (keys = base ∨ .opens keys ∈ before) := by
  induction sts generalizing base before with
  | nil => cases before <;> cases h
  | cons st sts ih =>
      obtain ⟨hst, hsts⟩ := List.forall_mem_cons.mp hsts
      cases before with
      | nil =>
          cases st with
          | header _ => cases h
          | assign key node =>
              cases h
              exact ⟨base, key, rfl, hdot, hst, Or.inl rfl⟩
      | cons e before =>
          obtain ⟨rfl, hrest⟩ := List.cons_eq_cons.mp h
          have hdot' : ∀ k ∈ st.pathAfter base, Ascii.dot ∉ k := by
            cases st with
            | header path' => exact fun k hk => Bytes.not_mem_of_mem_fields hk
            | assign _ _ => exact hdot
          obtain ⟨keys, key, hpath, hkeys, hproper, hopened⟩ := ih hsts hdot' hrest
          refine ⟨keys, key, hpath, hkeys, hproper, ?_⟩
          rcases hopened with rfl | hopened
          · cases st with
            | header _ => exact Or.inr List.mem_cons_self
            | assign _ _ => exact Or.inl rfl
          · exact Or.inr (List.mem_cons_of_mem _ hopened)

/-- **Looking up an assigned path** finds the value that is held there. -/
theorem atPath_dotted_eq_some_iff {sts : List Statement} (hsts : ∀ st ∈ sts, st.Proper)
    (h : effects [] sts = before ++ .assigns path value :: after) (t : Table) :
    t.atPath (Table.dotted path) = some value ↔ t.held path = .value value := by
  obtain ⟨keys, key, rfl, hkeys, ⟨hne, hdot, hvalue⟩, -⟩ :=
    exists_of_effects_eq hsts (List.forall_mem_nil _) h
  rw [Table.atPath, Table.keysOf_dotted hkeys hdot hne, Table.find?_eq_some_iff hvalue]

/-- **An assignment that is not repeated** is kept unless a later one is to a path that leads to
its own. -/
theorem atPath_eq_some_iff {text : Bytes} {sts : List Statement} (h : Script (afterBlank text) sts)
    {t : Table} (ht : parse text = .ok t)
    (hes : effects [] sts = before ++ .assigns path value :: after)
    (hlast : ∀ later, .assigns path later ∉ after) :
    t.atPath (Table.dotted path) = some value ↔
      ∀ path' value', .assigns path' value' ∈ after → ¬path' <+: path := by
  have hpairs := (exists_parse_iff h).mp ⟨t, ht⟩
  rw [hes, List.pairwise_append, List.pairwise_cons] at hpairs
  have hopen : ∀ path', .opens path' ∈ after → ¬path <+: path' := fun path' => hpairs.2.1.1 _
  rw [atPath_dotted_eq_some_iff h.proper hes, (held_of_parse h ht).2, hes, heldAfter,
    List.foldl_append, List.foldl_cons, foldl_on_eq_value_iff hlast hopen]
  simp [Effect.on]

/-- No assignment is to the document itself. -/
theorem ne_nil_of_mem_effects {sts : List Statement} (hsts : ∀ st ∈ sts, st.Proper)
    (h : .assigns path value ∈ effects [] sts) : path ≠ [] := by
  obtain ⟨before, after, hes⟩ := List.append_of_mem h
  obtain ⟨keys, key, rfl, -⟩ := exists_of_effects_eq hsts (List.forall_mem_nil _) hes
  simp

/-- Without conflicts, every assignment that is not repeated is kept: what could take it away would
block the section that it is in. -/
theorem kept_of_not_conflicting {text : Bytes} {sts : List Statement}
    (h : Script (afterBlank text) sts) {t : Table} (ht : parse text = .ok t)
    (hfree : ¬Conflicting (effects [] sts)) : Kept t (effects [] sts) := by
  intro before path value after hes hlast
  rw [atPath_eq_some_iff h ht hes hlast]
  intro path' value' hmem hprefix
  have hmem' : .assigns path' value' ∈ effects [] sts :=
    hes ▸ List.mem_append_right _ (List.mem_cons_of_mem _ hmem)
  obtain ⟨keys, key, rfl, -, -, hopened⟩ :=
    exists_of_effects_eq h.proper (List.forall_mem_nil _) hes
  rcases List.prefix_concat_iff.mp hprefix with rfl | hkeys
  · exact hlast value' hmem
  · rcases hopened with rfl | hopened
    · exact ne_nil_of_mem_effects h.proper hmem' (List.prefix_nil.mp hkeys)
    · refine hfree ⟨_, hmem', .opens keys, ?_, hkeys⟩
      exact hes ▸ List.mem_append_left _ hopened

theorem Effect.not_blocks_self (e : Effect) : ¬e.Blocks e := by
  cases e <;> exact id

/-- Nothing conflicts if nothing is blocked, before or after. -/
theorem not_conflicting_iff (hpairs : es.Pairwise fun a b => ¬a.Blocks b) :
    ¬Conflicting es ↔ es.Pairwise fun a b => ¬b.Blocks a := by
  constructor
  · exact fun h => List.pairwise_of_forall_mem_list fun a ha b hb hab => h ⟨b, hb, a, ha, hab⟩
  · rintro hpairs' ⟨a, ha, b, hb, hab⟩
    have hboth : es.Pairwise fun a b => ¬a.Blocks b ∧ ¬b.Blocks a := hpairs.and hpairs'
    have hsymm : Std.Symm fun a b : Effect => ¬a.Blocks b ∧ ¬b.Blocks a := ⟨fun _ _ => And.symm⟩
    have hself : ∀ e ∈ es, ¬e.Blocks e ∧ ¬e.Blocks e := fun e _ =>
      ⟨e.not_blocks_self, e.not_blocks_self⟩
    exact (hboth.forall_of_forall hself ha hb).1 hab

/-- **Which documents are accepted, and which assignments they keep.** A document is accepted
unless an assignment blocks a later section. Of the assignments in an accepted document that are
not repeated, those are kept that no later assignment stands on the way to. All of them are, and no
path is needed both for a value and for a table, exactly when no assignment blocks a section that
comes before it. -/
theorem kept_iff_nothing_overwritten {text : Bytes} {sts : List Statement}
    (h : Script (afterBlank text) sts) :
    ((∃ t, parse text = .ok t) ↔ (effects [] sts).Pairwise fun a b => ¬a.Blocks b) ∧
    ∀ t, parse text = .ok t →
      (∀ before path value after, effects [] sts = before ++ .assigns path value :: after →
        (∀ later, .assigns path later ∉ after) →
          (t.atPath (Table.dotted path) = some value ↔
            ∀ path' value', .assigns path' value' ∈ after → ¬path' <+: path)) ∧
      (Kept t (effects [] sts) ∧ ¬Conflicting (effects [] sts) ↔
        (effects [] sts).Pairwise fun a b => ¬b.Blocks a) := by
  refine ⟨exists_parse_iff h, fun t ht => ⟨?_, ?_⟩⟩
  · exact fun before path value after => atPath_eq_some_iff h ht
  · rw [← not_conflicting_iff ((exists_parse_iff h).mp ⟨t, ht⟩)]
    exact and_iff_right_of_imp (kept_of_not_conflicting h ht)

/-! ### Samples -/

/-- A section is opened again, and one of its keys is assigned to again. -/
def reopenedSample : Bytes :=
  ascii "[a.b]\nx = 1\n[a]\ny = \"two\"\n[a.b]\nx = true\nz = [-3]\n"

/-- The statements of the sample. -/
def reopenedScript : List Statement :=
  [.header (ascii "a.b"), .assign (ascii "x") (.integer 1), .header (ascii "a"),
    .assign (ascii "y") (.string (ascii "two")), .header (ascii "a.b"),
    .assign (ascii "x") (.boolean true), .assign (ascii "z") (.array [.integer (-3)])]

theorem script_reopenedSample : Script (afterBlank reopenedSample) reopenedScript := by
  have htext : reopenedSample = writeAll reopenedScript := by decide +kernel
  have hitems : ∀ node ∈ [Node.integer (-3)], node.Plain := by simpa using Node.Plain.integer (-3)
  rw [htext]
  refine script_writeAll ?_
  simp only [reopenedScript, List.forall_mem_cons, Statement.Writable]
  exact ⟨by decide, ⟨by decide, .integer 1⟩, by decide, ⟨by decide, .string _⟩, by decide,
    ⟨by decide, .boolean true⟩, ⟨by decide, .array hitems⟩, List.forall_mem_nil _⟩

theorem kept_reopenedSample :
    Script (afterBlank reopenedSample) reopenedScript ∧
      ∃ t, parse reopenedSample = .ok t ∧ Kept t (effects [] reopenedScript) ∧
        ¬Conflicting (effects [] reopenedScript) := by
  obtain ⟨haccepted, hkept⟩ := kept_iff_nothing_overwritten script_reopenedSample
  obtain ⟨t, ht⟩ := haccepted.mpr (by decide)
  exact ⟨script_reopenedSample, t, ht, (hkept t ht).2.mpr (by decide)⟩

/-- A value is assigned to a path that is a table by then. -/
def overwrittenSample : Bytes := ascii "[a.b]\nx = 1\n[a]\nb = 2\n"

/-- The statements of the sample. -/
def overwrittenScript : List Statement :=
  [.header (ascii "a.b"), .assign (ascii "x") (.integer 1), .header (ascii "a"),
    .assign (ascii "b") (.integer 2)]

theorem script_overwrittenSample : Script (afterBlank overwrittenSample) overwrittenScript := by
  have htext : overwrittenSample = writeAll overwrittenScript := by decide +kernel
  rw [htext]
  refine script_writeAll ?_
  simp only [overwrittenScript, List.forall_mem_cons, Statement.Writable]
  exact ⟨by decide, ⟨by decide, .integer 1⟩, by decide, ⟨by decide, .integer 2⟩,
    List.forall_mem_nil _⟩

/-- **A document that loses an assignment** is accepted, and so is one that needs a path both for a
value and for a table: `a.b` is a table with the value of `a.b.x`, until it is a value itself. -/
theorem not_kept_overwrittenSample :
    Script (afterBlank overwrittenSample) overwrittenScript ∧
      ∃ t, parse overwrittenSample = .ok t ∧ t.atPath (ascii "a.b.x") = none ∧
        t.atPath (ascii "a.b") = some (.integer 2) ∧ ¬Kept t (effects [] overwrittenScript) ∧
        Conflicting (effects [] overwrittenScript) := by
  have hscript := script_overwrittenSample
  have heffects : effects [] overwrittenScript =
      [.opens [ascii "a", ascii "b"], .assigns [ascii "a", ascii "b", ascii "x"] (.integer 1),
        .opens [ascii "a"], .assigns [ascii "a", ascii "b"] (.integer 2)] := rfl
  refine ⟨hscript, _, parse_eq_ok_iff.mpr ⟨overwrittenScript, _, hscript, rfl, rfl⟩, rfl, rfl,
    ?_, ?_⟩
  · intro hkept
    have hx := hkept [_] _ _ [_, _] heffects (by simp)
    cases hx
  · rw [heffects]
    exact ⟨.assigns [ascii "a", ascii "b"] (.integer 2), by simp,
      .opens [ascii "a", ascii "b"], by simp, by decide⟩

end Toml

end DoctypeProbe
