import DoctypeProbe.Proofs.Toml.Reading
import DoctypeProbe.Proofs.Toml.Tables
import Mathlib.Data.List.TakeWhile

/-!
# What Statements Do

A section header opens the table at its path, and an assignment puts a value at a path that begins
with that of the section it is in. These are the effects of a document, and they say all about it:
which paths hold what in the end is found by going through the effects, for each path on its own
(`heldAfter`), and a document is accepted unless it opens a table at or below a path that has been
assigned to (`Effect.Blocks`).

## Main results

* `Toml.State.Sound.run`: what a run of statements leaves at every path.
* `Toml.State.Sound.exists_run_iff`: which statements can be performed.
* `Toml.parse_eq_ok_iff_of_script`: the table that a document denotes, by its effects.
-/

namespace DoctypeProbe

namespace Toml

/-! ### Statements that are read -/

theorem isTable_of_scalar? {b : Byte} {s rest : Bytes} {node : Node}
    (h : scalar? b s = some (node, rest)) : node.isTable = false := by
  rcases scalar?_cases h with ⟨text, rfl⟩ | ⟨v, rfl⟩ | ⟨-, hnumber⟩
  · rfl
  · rfl
  · rcases number?_cases hnumber with ⟨n, rfl⟩ | ⟨x, rfl⟩ <;> rfl

/-- What is read as a value is not a table. -/
theorem isTable_of_value? {s rest : Bytes} {node : Node} (h : value? s = some (node, rest)) :
    node.isTable = false := by
  cases s with
  | nil =>
      rw [value?_nil] at h
      cases h
  | cons b s =>
      rw [value?_cons] at h
      split_ifs at h
      · obtain ⟨nodes, -, rfl⟩ := exists_of_map h
        rfl
      · exact isTable_of_scalar? h

/-- A statement as it is read: a key is not empty and has no dots in it, and a value is not a
table. -/
def Statement.Proper : Statement → Prop
  | .header _ => True
  | .assign key node => key ≠ [] ∧ Ascii.dot ∉ key ∧ node.isTable = false

theorem proper_of_statement? {s rest : Bytes} {st : Statement}
    (h : statement? s = some (st, rest)) : st.Proper := by
  rcases statement?_cases h with ⟨path, rfl⟩ | ⟨key, node, rfl, ha⟩
  · trivial
  · obtain ⟨rfl, hkey, t, -, hv⟩ := exists_of_assignment? ha
    have hdot : Ascii.dot ∉ s.takeWhile isKeyByte := fun hmem =>
      absurd (List.mem_takeWhile_imp hmem) (by decide)
    exact ⟨hkey, hdot, isTable_of_value? hv⟩

theorem Script.proper {s : Bytes} {sts : List Statement} (h : Script s sts) :
    ∀ st ∈ sts, st.Proper := by
  induction h with
  | nil => simp
  | cons hst _ _ ih => exact List.forall_mem_cons.mpr ⟨proper_of_statement? hst, ih⟩

/-- A text has one script. -/
theorem Script.unique {s : Bytes} {sts sts' : List Statement} (h : Script s sts)
    (h' : Script s sts') : sts = sts' := by
  induction h generalizing sts' with
  | nil => exact (script_nil_iff.mp h').symm
  | cons hst hl _ ih =>
      cases h' with
      | nil => cases hst
      | cons hst' hl' hr' =>
          rw [hst] at hst'
          cases hst'
          rw [hl] at hl'
          cases hl'
          rw [ih hr']

/-! ### Effects -/

/-- What a statement does. -/
inductive Effect where
  /-- Makes sure that a table stands at a path. -/
  | opens (path : List Bytes)
  /-- Puts a value at a path. -/
  | assigns (path : List Bytes) (value : Node)

/-- What a statement does in the section at a path. -/
def Statement.effect (path : List Bytes) : Statement → Effect
  | .header path' => .opens (Table.keysOf path')
  | .assign key node => .assigns (path ++ [key]) node

/-- The section that the next statement is in. -/
def Statement.pathAfter (path : List Bytes) : Statement → List Bytes
  | .header path' => Table.keysOf path'
  | .assign _ _ => path

/-- What statements do, from the section at a path on. -/
def effects (path : List Bytes) : List Statement → List Effect
  | [] => []
  | st :: sts => st.effect path :: effects (st.pathAfter path) sts

/-- What an effect makes of what is held at the path `q`. -/
def Effect.on (q : List Bytes) (held : Held) : Effect → Held
  | .opens path => if q <+: path then .table else held
  | .assigns path value =>
    if q = path then .value value else if path <+: q then .nothing else held

/-- What is held at a path after effects on the empty table. -/
def heldAfter (es : List Effect) (q : List Bytes) : Held := es.foldl (Effect.on q) (Table.held [] q)

/-- An assignment stands in the way of a section: it puts a value at a path that leads to it. -/
def Effect.Blocks : Effect → Effect → Prop
  | .assigns path _, .opens path' => path <+: path'
  | _, _ => False

instance : DecidableRel Effect.Blocks
  | .assigns path _, .opens path' => inferInstanceAs (Decidable (path <+: path'))
  | .assigns _ _, .assigns _ _ => .isFalse id
  | .opens _, _ => .isFalse id

/-! ### Steps -/

/-- What holds of a state between statements: its table is in order, and there is a table at the
path of its section. -/
structure State.Sound (state : State) : Prop where
  ordered : state.table.Ordered
  isOpen : state.table.held state.path = .table

variable {state state' : State} {st : Statement} {sts : List Statement}

theorem State.sound_initial : State.Sound {} := ⟨Table.ordered_nil, rfl⟩

/-- **What a statement does** to a sound state is its effect at every path. -/
theorem State.Sound.perform (hs : state.Sound) (hst : st.Proper)
    (h : state.perform st = some state') :
    state'.Sound ∧ state'.path = st.pathAfter state.path ∧
      ∀ q, state'.table.held q = (st.effect state.path).on q (state.table.held q) := by
  cases st with
  | header path =>
      obtain ⟨t, ht, rfl⟩ := Option.map_eq_some_iff.mp h
      have ho : state.table.openSection (Table.keysOf path) = .ok t := by
        cases hr : state.table.openSection (Table.keysOf path) with
        | error e => rw [hr] at ht; cases ht
        | ok t' => rw [hr] at ht; cases ht; rfl
      have hheld := Table.held_openSection ho
      exact ⟨⟨hs.ordered.openSection ho, by simp [hheld]⟩, rfl, hheld⟩
  | assign key node =>
      obtain ⟨-, -, hnode⟩ := hst
      cases h
      have hheld := Table.held_assign hs.isOpen key hnode
      refine ⟨⟨hs.ordered.assign _ key hnode, ?_⟩, rfl, hheld⟩
      -- the section stays a table: what is assigned to is a key in it
      have hlong : ¬state.path ++ [key] <+: state.path := fun hp => by
        have hle := hp.length_le
        rw [List.length_append, List.length_singleton] at hle
        omega
      rw [hheld, if_neg (by simp), if_neg hlong, hs.isOpen]

/-- **A statement can be performed** unless a value blocks the section that it opens. -/
theorem State.exists_perform_iff :
    (∃ state', state.perform st = some state') ↔
      ∀ path, st.effect state.path = .opens path → ¬state.table.Blocked path := by
  cases st with
  | header path =>
      have hopen : (∃ state', state.perform (.header path) = some state') ↔
          ∃ t', state.table.openSection (Table.keysOf path) = .ok t' := by
        rw [State.perform]
        cases state.table.openSection (Table.keysOf path) <;> simp [Except.toOption]
      rw [hopen, Table.exists_openSection_iff]
      simp [Statement.effect]
  | assign key node => simp [State.perform, Statement.effect]

/-- **What blocks sections** after an effect is what blocked them before, and the effect itself if
it is an assignment. A section that is opened takes no block away, since none was in its way. -/
theorem blocked_of_on {t t' : Table} {e : Effect} (hheld : ∀ q, t'.held q = e.on q (t.held q))
    (hok : ∀ path, e = .opens path → ¬t.Blocked path) (path : List Bytes) :
    t'.Blocked path ↔ t.Blocked path ∨ e.Blocks (.opens path) := by
  cases e with
  | opens s =>
      simp only [Table.Blocked, Effect.Blocks, or_false, hheld, Effect.on]
      constructor
      · rintro ⟨q, node, hq, hv⟩
        split_ifs at hv
        exact ⟨q, node, hq, hv⟩
      · rintro ⟨q, node, hq, hv⟩
        have hs : ¬q <+: s := fun hs => hok s rfl ⟨q, node, hs, hv⟩
        exact ⟨q, node, hq, by rw [if_neg hs, hv]⟩
  | assigns p v =>
      simp only [Table.Blocked, Effect.Blocks, hheld, Effect.on]
      constructor
      · rintro ⟨q, node, hq, hv⟩
        split_ifs at hv with he
        · exact Or.inr (he ▸ hq)
        · exact Or.inl ⟨q, node, hq, hv⟩
      · intro h
        by_cases hp : p <+: path
        · exact ⟨p, v, hp, if_pos rfl⟩
        · obtain ⟨q, node, hq, hv⟩ := h.resolve_right hp
          have hpq : ¬p <+: q := fun hpq => hp (hpq.trans hq)
          have hne : q ≠ p := fun he => hp (he ▸ hq)
          exact ⟨q, node, hq, by rw [if_neg hne, if_neg hpq, hv]⟩

theorem forall_not_blocks_iff {e : Effect} {es : List Effect} :
    (∀ e' ∈ es, ¬e.Blocks e') ↔ ∀ path, .opens path ∈ es → ¬e.Blocks (.opens path) := by
  constructor
  · exact fun h path => h _
  · intro h e' he'
    cases e' with
    | opens path => exact h path he'
    | assigns _ _ => cases e <;> exact id

/-! ### Runs -/

/-- **What a run of statements leaves** at every path is what their effects make of it. -/
theorem State.Sound.run (hs : state.Sound) (hsts : ∀ st ∈ sts, st.Proper)
    (h : sts.foldlM State.perform state = some state') :
    state'.Sound ∧
      ∀ q, state'.table.held q =
        (effects state.path sts).foldl (Effect.on q) (state.table.held q) := by
  induction sts generalizing state with
  | nil =>
      cases h
      exact ⟨hs, fun _ => rfl⟩
  | cons st sts ih =>
      obtain ⟨hst, hsts⟩ := List.forall_mem_cons.mp hsts
      obtain ⟨state₁, h₁, hrun⟩ := Option.bind_eq_some_iff.mp h
      obtain ⟨hs₁, hpath, hheld⟩ := hs.perform hst h₁
      obtain ⟨hs', hheld'⟩ := ih hs₁ hsts hrun
      refine ⟨hs', fun q => ?_⟩
      rw [hheld', hpath, hheld]
      rfl

/-- **Statements can be performed** unless an assignment blocks a later section, or something that
was there before does. -/
theorem State.Sound.exists_run_iff (hs : state.Sound) (hsts : ∀ st ∈ sts, st.Proper) :
    (∃ state', sts.foldlM State.perform state = some state') ↔
      (∀ path, .opens path ∈ effects state.path sts → ¬state.table.Blocked path) ∧
        (effects state.path sts).Pairwise fun a b => ¬a.Blocks b := by
  induction sts generalizing state with
  | nil => simp [effects, pure]
  | cons st sts ih =>
      obtain ⟨hst, hsts⟩ := List.forall_mem_cons.mp hsts
      rw [List.foldlM_cons, effects, List.pairwise_cons, forall_not_blocks_iff]
      simp only [List.mem_cons]
      -- an effect that can be had only adds to what blocks the sections after it
      cases h₁ : state.perform st with
      | none =>
          have hblocked : ∃ path, st.effect state.path = .opens path ∧
              state.table.Blocked path := by
            by_contra hn
            push Not at hn
            obtain ⟨state₁, h⟩ := State.exists_perform_iff.mpr hn
            rw [h₁] at h
            cases h
          obtain ⟨path, he, hb⟩ := hblocked
          simp only [Option.bind_eq_bind, Option.bind_none, reduceCtorEq, exists_false, false_iff]
          exact fun h => h.1 path (Or.inl he.symm) hb
      | some state₁ =>
          have hok := State.exists_perform_iff.mp ⟨state₁, h₁⟩
          obtain ⟨hs₁, hpath, hheld⟩ := hs.perform hst h₁
          rw [Option.bind_eq_bind, Option.bind_some, ih hs₁ hsts, hpath]
          simp only [blocked_of_on hheld hok, not_or]
          constructor
          · rintro ⟨hrest, hpairs⟩
            refine ⟨fun path hp => ?_, fun path hp => (hrest path hp).2, hpairs⟩
            rcases hp with hp | hp
            · exact hok path hp.symm
            · exact (hrest path hp).1
          · rintro ⟨hall, hblocks, hpairs⟩
            exact ⟨fun path hp => ⟨hall path (Or.inr hp), hblocks path hp⟩, hpairs⟩

/-- **A document is accepted** unless an assignment in it blocks a later section. -/
theorem exists_parse_iff {text : Bytes} (h : Script (afterBlank text) sts) :
    (∃ t, parse text = .ok t) ↔ (effects [] sts).Pairwise fun a b => ¬a.Blocks b := by
  have hfree : ∀ path, ¬Table.Blocked [] path := by
    rintro path ⟨q, node, -, hv⟩
    rw [Table.held_nil] at hv
    split_ifs at hv
  have hiff := State.sound_initial.exists_run_iff h.proper
  simp only [parse_eq_ok_iff]
  constructor
  · rintro ⟨t, sts', state, hsts', hrun, -⟩
    obtain rfl := h.unique hsts'
    exact (hiff.mp ⟨state, hrun⟩).2
  · intro hpairs
    obtain ⟨state, hrun⟩ := hiff.mpr ⟨fun path _ => hfree path, hpairs⟩
    exact ⟨state.table, sts, state, h, hrun, rfl⟩

/-- The table of a document holds what the effects of its statements make of the empty table. -/
theorem held_of_parse {text : Bytes} (h : Script (afterBlank text) sts) {t : Table}
    (ht : parse text = .ok t) : t.Ordered ∧ ∀ q, t.held q = heldAfter (effects [] sts) q := by
  obtain ⟨sts', state, hsts', hrun, rfl⟩ := parse_eq_ok_iff.mp ht
  obtain rfl := h.unique hsts'
  obtain ⟨hs, hheld⟩ := State.sound_initial.run h.proper hrun
  exact ⟨hs.ordered, hheld⟩

/-- **What a document denotes**, by the effects of its statements. -/
theorem parse_eq_ok_iff_of_script {text : Bytes} (h : Script (afterBlank text) sts) {t : Table} :
    parse text = .ok t ↔
      (effects [] sts).Pairwise (fun a b => ¬a.Blocks b) ∧ t.Ordered ∧
        ∀ q, t.held q = heldAfter (effects [] sts) q := by
  constructor
  · exact fun ht => ⟨(exists_parse_iff h).mp ⟨t, ht⟩, held_of_parse h ht⟩
  · rintro ⟨hpairs, hordered, hheld⟩
    obtain ⟨t', ht'⟩ := (exists_parse_iff h).mpr hpairs
    obtain ⟨hordered', hheld'⟩ := held_of_parse h ht'
    rw [ht', hordered'.ext hordered fun q => (hheld' q).trans (hheld q).symm]

end Toml

end DoctypeProbe
