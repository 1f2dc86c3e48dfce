import DoctypeProbe.Proofs.Bytes.Fields
import DoctypeProbe.Proofs.Keyed
import DoctypeProbe.Toml.Table

/-!
# What Tables Hold

Tables are nested, and a path of keys leads through them. `Table.held` says what stands at the end
of a path: nothing, a table, or a value. Opening a section and assigning a value are both said by
what they change at which paths, and a table whose entries are in order is determined by what it
holds.

## Main results

* `Table.held_openSection`: opening a section makes tables of the paths that lead to it.
* `Table.exists_openSection_iff`: a section can be opened unless a value stands in its way.
* `Table.held_assign`: an assignment changes what stands at its path, and takes away what stood
  below it.
* `Table.Ordered.ext`: tables that hold the same are equal.
* `Table.keysOf_dotted`: a dotted path is taken apart into the keys it was made of.
-/

namespace DoctypeProbe

namespace Toml

/-- Whether a node is a table. -/
def Node.isTable : Node → Bool
  | .table _ => true
  | _ => false

/-- What stands at the end of a path. -/
inductive Held where
  /-- Nothing. -/
  | nothing
  /-- A table. -/
  | table
  /-- A value. -/
  | value (node : Node)

namespace Table

/-- What a table holds at a path of keys. The empty path leads to the table itself. -/
def held (t : Table) : List Bytes → Held
  | [] => .table
  | k :: ks =>
    match t.get? k with
    | none => .nothing
    | some (.table t') => held t' ks
    | some node => if ks = [] then .value node else .nothing

variable {t t' : Table} {k : Bytes} {ks : List Bytes}

theorem held_cons_of_none (h : t.get? k = none) : t.held (k :: ks) = .nothing := by
  rw [held, h]

theorem held_cons_of_table (h : t.get? k = some (.table t')) : t.held (k :: ks) = held t' ks := by
  rw [held, h]

theorem held_cons_of_value {node : Node} (h : t.get? k = some node) (hn : node.isTable = false) :
    t.held (k :: ks) = if ks = [] then .value node else .nothing := by
  rw [held, h]
  cases node with
  | table t' => cases hn
  | _ => rfl

/-- What a key can find: nothing, a table, or a value. -/
theorem get?_cases (t : Table) (k : Bytes) :
    t.get? k = none ∨ (∃ t', t.get? k = some (.table t')) ∨
      ∃ node, t.get? k = some node ∧ node.isTable = false := by
  cases h : t.get? k with
  | none => exact Or.inl rfl
  | some node =>
      cases node with
      | table t' => exact Or.inr (Or.inl ⟨t', rfl⟩)
      | _ => exact Or.inr (Or.inr ⟨_, rfl, rfl⟩)

/-- A path that leads to a table leads through tables. -/
theorem exists_of_held_cons_eq_table (h : t.held (k :: ks) = .table) :
    ∃ t', t.get? k = some (.table t') ∧ held t' ks = .table := by
  rcases get?_cases t k with hg | ⟨t', hg⟩ | ⟨node, hg, hn⟩
  · rw [held_cons_of_none hg] at h
    cases h
  · exact ⟨t', hg, held_cons_of_table hg ▸ h⟩
  · rw [held_cons_of_value hg hn] at h
    split at h <;> cases h

/-- Every path to a table leads through tables. -/
theorem held_eq_table_of_prefix {path q : List Bytes} (h : t.held path = .table) (hq : q <+: path) :
    t.held q = .table := by
  induction q generalizing t path with
  | nil => rfl
  | cons k q ih =>
      rcases path with - | ⟨k', path⟩
      · cases List.prefix_nil.mp hq
      · obtain ⟨rfl, hrest⟩ := List.cons_prefix_cons.mp hq
        obtain ⟨t', hg, h'⟩ := exists_of_held_cons_eq_table h
        rw [held_cons_of_table hg, ih h' hrest]

/-- Nothing stands below a value. -/
theorem held_eq_nothing_of_prefix {path q : List Bytes} {node : Node}
    (h : t.held path = .value node) (hq : path <+: q) (hne : q ≠ path) : t.held q = .nothing := by
  induction path generalizing t q with
  | nil => cases h
  | cons k path ih =>
      rcases q with - | ⟨k', q⟩
      · cases List.prefix_nil.mp hq
      · obtain ⟨rfl, hrest⟩ := List.cons_prefix_cons.mp hq
        rw [ne_eq, List.cons_inj_right] at hne
        rcases get?_cases t k with hg | ⟨t', hg⟩ | ⟨node', hg, hn⟩
        · exact held_cons_of_none hg
        · rw [held_cons_of_table hg] at h ⊢
          exact ih h hrest hne
        · rw [held_cons_of_value hg hn] at h ⊢
          split_ifs at h with hpath
          rw [if_neg (hpath ▸ hne)]

/-- The empty table holds nothing but itself. -/
theorem held_nil (q : List Bytes) : held [] q = if q = [] then .table else .nothing := by
  cases q <;> rfl

/-- What is held at a path depends on what its first key finds. -/
theorem held_cons_congr (h : t.get? k = t'.get? k) : t.held (k :: ks) = t'.held (k :: ks) := by
  rw [held, held, h]

/-! ### Assignments -/

/-- **An assignment** puts a value at its path, and nothing stands below it then. -/
theorem held_assign {path : List Bytes} (h : t.held path = .table) (key : Bytes) {node : Node}
    (hn : node.isTable = false) (q : List Bytes) :
    (t.assign path key node).held q =
      if q = path ++ [key] then .value node
      else if path ++ [key] <+: q then .nothing
      else t.held q := by
  induction path generalizing t q with
  | nil =>
      rcases q with - | ⟨k, ks⟩
      · rfl
      · have hg := Keyed.get?_insert t key k node
        by_cases hk : k = key
        · subst hk
          rw [if_pos rfl] at hg
          rw [assign, held_cons_of_value hg hn]
          simp
        · rw [if_neg hk] at hg
          rw [assign, held_cons_congr hg]
          simp [hk, Ne.symm hk]
  | cons k path ih =>
      obtain ⟨t', hg, ht'⟩ := exists_of_held_cons_eq_table h
      rcases q with - | ⟨k', ks⟩
      · rfl
      · have hi := Keyed.get?_insert t k k' (.table (assign t' path key node))
        rw [assign, hg]
        by_cases hk : k' = k
        · subst hk
          rw [if_pos rfl] at hi
          rw [held_cons_of_table hi, held_cons_of_table hg, ih ht']
          simp
        · rw [if_neg hk] at hi
          rw [held_cons_congr hi]
          simp [hk, Ne.symm hk]

/-! ### Sections -/

/-- The table at a key, or the one that a section makes of it; there is none if a value stands
there. -/
def Opens (t : Table) (k : Bytes) (t₀ : Table) : Prop :=
  t.get? k = some (.table t₀) ∨ t.get? k = none ∧ t₀ = []

/-- How a section is opened. -/
theorem openSection_cons_eq_ok_iff {keys : List Bytes} :
    t.openSection (k :: keys) = .ok t' ↔
      ∃ t₀ t₁, t.Opens k t₀ ∧ openSection t₀ keys = .ok t₁ ∧ t' = t.insert k (.table t₁) := by
  have hmap : ∀ (t₀ : Table),
      (openSection t₀ keys).map (fun t₁ => t.insert k (.table t₁)) = .ok t' ↔
        ∃ t₁, openSection t₀ keys = .ok t₁ ∧ t' = t.insert k (.table t₁) := fun t₀ => by
    cases openSection t₀ keys <;> simp [Except.map, eq_comm]
  rw [openSection]
  rcases get?_cases t k with hg | ⟨t₀, hg⟩ | ⟨node, hg, hn⟩
  · simp [hg, hmap, Opens]
  · simp [hg, hmap, Opens]
  · cases node with
    | table t₀ => cases hn
    | _ => simp [hg, Opens]

/-- What stands behind a key does not change when the table at the key is made. -/
theorem held_cons_of_opens {t₀ : Table} (h : t.Opens k t₀) (hks : ks ≠ []) :
    t.held (k :: ks) = held t₀ ks := by
  rcases h with hg | ⟨hg, rfl⟩
  · exact held_cons_of_table hg
  · rw [held_cons_of_none hg, held_nil, if_neg hks]

/-- **Opening a section** makes tables of the paths that lead to it, and changes nothing else. -/
theorem held_openSection {keys : List Bytes} (h : t.openSection keys = .ok t') (q : List Bytes) :
    t'.held q = if q <+: keys then .table else t.held q := by
  induction keys generalizing t t' q with
  | nil =>
      cases h
      rcases q with - | ⟨k, ks⟩ <;> simp [held]
  | cons k keys ih =>
      obtain ⟨t₀, t₁, hopens, h₁, rfl⟩ := openSection_cons_eq_ok_iff.mp h
      rcases q with - | ⟨k', ks⟩
      · rfl
      · have hi := Keyed.get?_insert t k k' (.table t₁)
        by_cases hk : k' = k
        · subst hk
          rw [if_pos rfl] at hi
          rw [held_cons_of_table hi, ih h₁]
          by_cases hks : ks = []
          · simp [hks]
          · simp [held_cons_of_opens hopens hks]
        · rw [if_neg hk] at hi
          rw [held_cons_congr hi]
          simp [hk]

/-- A value stands in the way of a section: at a path that leads to it. -/
def Blocked (t : Table) (path : List Bytes) : Prop :=
  ∃ q node, q <+: path ∧ t.held q = .value node

/-- **A section can be opened** unless a value stands in its way. -/
theorem exists_openSection_iff {keys : List Bytes} :
    (∃ t', t.openSection keys = .ok t') ↔ ¬t.Blocked keys := by
  simp only [Blocked, not_exists, not_and]
  induction keys generalizing t with
  | nil =>
      refine iff_of_true ⟨t, rfl⟩ fun q node hq => ?_
      obtain rfl := List.prefix_nil.mp hq
      simp [held]
  | cons k keys ih =>
      simp only [openSection_cons_eq_ok_iff]
      constructor
      · rintro ⟨-, t₀, t₁, hopens, h₁, -⟩ p node hp
        rcases p with - | ⟨k', ks⟩
        · simp [held]
        · obtain ⟨rfl, hks⟩ := List.cons_prefix_cons.mp hp
          by_cases hne : ks = []
          · subst hne
            rcases hopens with hg | ⟨hg, -⟩
            · rw [held_cons_of_table hg, held]
              simp
            · simp [held_cons_of_none hg]
          · rw [held_cons_of_opens hopens hne]
            exact ih.mp ⟨t₁, h₁⟩ ks node hks
      · intro h
        have hopens : ∃ t₀, t.Opens k t₀ := by
          rcases get?_cases t k with hg | ⟨t₀, hg⟩ | ⟨node, hg, hn⟩
          · exact ⟨[], Or.inr ⟨hg, rfl⟩⟩
          · exact ⟨t₀, Or.inl hg⟩
          · refine absurd ?_ (h [k] node (by simp))
            rw [held_cons_of_value hg hn, if_pos rfl]
        obtain ⟨t₀, hopens⟩ := hopens
        obtain ⟨t₁, h₁⟩ := (ih (t := t₀)).mpr fun p node hp => by
          by_cases hne : p = []
          · simp [hne, held]
          · rw [← held_cons_of_opens hopens hne]
            exact h (k :: p) node (List.cons_prefix_cons.mpr ⟨rfl, hp⟩)
        exact ⟨_, t₀, t₁, hopens, h₁, rfl⟩

/-! ### Lookups -/

/-- **A lookup** finds the value that is held. -/
theorem find?_eq_some_iff {path : List Bytes} {node : Node} (hn : node.isTable = false) :
    t.find? path = some node ↔ t.held path = .value node := by
  fun_induction find? t path with
  | case1 => simp [held]
  | case2 t key =>
      rcases get?_cases t key with hg | ⟨t', hg⟩ | ⟨node', hg, hn'⟩
      · simp [held_cons_of_none hg, hg]
      · rw [held_cons_of_table hg, hg]
        simp only [Option.some.injEq, held, reduceCtorEq, iff_false]
        rintro rfl
        cases hn
      · simp [held_cons_of_value hg hn', hg]
  | case3 t key keys hne t' hg ih => rw [held_cons_of_table hg, ih]
  | case4 t key keys hne hg =>
      rcases get?_cases t key with hg' | ⟨t', hg'⟩ | ⟨node', hg', hn'⟩
      · simp [held_cons_of_none hg']
      · exact absurd hg' (hg t')
      · have hkeys : keys ≠ [] := fun h => hne h
        simp [held_cons_of_value hg' hn', hkeys]

/-! ### Dotted paths -/

/-- The dotted path of keys. -/
def dotted (keys : List Bytes) : Bytes := [Ascii.dot].intercalate keys

@[simp] theorem dotted_singleton (key : Bytes) : dotted [key] = key := by simp [dotted]

theorem dotted_cons {keys : List Bytes} (key : Bytes) (h : keys ≠ []) :
    dotted (key :: keys) = key ++ Ascii.dot :: dotted keys := by
  obtain ⟨k, keys, rfl⟩ := List.exists_cons_of_ne_nil h
  simp [dotted, List.intercalate_cons_cons]

/-- **A dotted path** is taken apart into the keys it was made of: no dot is in any of them, and
the last is not empty. -/
theorem keysOf_dotted {keys : List Bytes} {key : Bytes} (hdot : ∀ k ∈ keys, Ascii.dot ∉ k)
    (hkey : Ascii.dot ∉ key) (hne : key ≠ []) :
    keysOf (dotted (keys ++ [key])) = keys ++ [key] := by
  induction keys with
  | nil => simpa [keysOf] using Bytes.fields_of_not_mem hkey hne
  | cons k keys ih =>
      obtain ⟨hk, hkeys⟩ := List.forall_mem_cons.mp hdot
      rw [List.cons_append, dotted_cons k (by simp), keysOf, Bytes.fields_append hk]
      exact congrArg (k :: ·) (ih hkeys)

/-! ### Tables in order -/

/-- A table whose entries are in order, and those of the tables in it. -/
inductive Ordered : Table → Prop
  | intro {t : Table} : Keyed.Increasing t → (∀ k t', t.get? k = some (.table t') → Ordered t') →
      Ordered t

theorem ordered_nil : Ordered [] := .intro Keyed.increasing_nil fun _ _ h => nomatch h

theorem Ordered.increasing (h : Ordered t) : Keyed.Increasing t := by
  cases h with
  | intro hi => exact hi

theorem Ordered.table (h : Ordered t) (hg : t.get? k = some (.table t')) : Ordered t' := by
  cases h with
  | intro _ hsub => exact hsub k t' hg

/-- **Tables that hold the same** are equal, if their entries are in order. -/
theorem Ordered.ext (h : Ordered t) (h' : Ordered t') (hq : ∀ q, t.held q = t'.held q) :
    t = t' := by
  induction h generalizing t' with
  | @intro t hi _ ih =>
      refine hi.ext h'.increasing fun k => ?_
      have hk : ∀ ks, t.held (k :: ks) = t'.held (k :: ks) := fun ks => hq (k :: ks)
      have hk' := hk []
      -- what stands at the key itself tells what kind of thing it is
      rcases get?_cases t k with hg | ⟨s, hg⟩ | ⟨node, hg, hn⟩
      · rw [held_cons_of_none hg] at hk'
        rcases get?_cases t' k with hg' | ⟨s', hg'⟩ | ⟨node', hg', hn'⟩
        · rw [hg, hg']
        · rw [held_cons_of_table hg'] at hk'
          cases hk'
        · rw [held_cons_of_value hg' hn'] at hk'
          cases hk'
      · rw [held_cons_of_table hg] at hk'
        obtain ⟨s', hg', -⟩ := exists_of_held_cons_eq_table hk'.symm
        have hs : s = s' := ih k s hg (h'.table hg') fun ks => by
          rw [← held_cons_of_table hg, ← held_cons_of_table hg', hk]
        rw [hg, hg', hs]
      · rw [held_cons_of_value hg hn, if_pos rfl] at hk'
        rcases get?_cases t' k with hg' | ⟨s', hg'⟩ | ⟨node', hg', hn'⟩
        · rw [held_cons_of_none hg'] at hk'
          cases hk'
        · rw [held_cons_of_table hg'] at hk'
          cases hk'
        · rw [held_cons_of_value hg' hn', if_pos rfl] at hk'
          rw [hg, hg', Held.value.inj hk']

/-- Putting something at a key keeps the order, if it has one itself. -/
theorem Ordered.insert (h : Ordered t) (key : Bytes) {node : Node}
    (hn : ∀ t', node = .table t' → Ordered t') : Ordered (Keyed.insert t key node) := by
  refine .intro (h.increasing.insert key node) fun k t' hg => ?_
  rw [Keyed.get?_insert] at hg
  split at hg
  · exact hn t' (Option.some.inj hg)
  · exact h.table hg

theorem Ordered.assign (h : Ordered t) (path : List Bytes) (key : Bytes) {node : Node}
    (hn : node.isTable = false) : Ordered (t.assign path key node) := by
  induction path generalizing t with
  | nil => exact h.insert key fun t' ht => by rw [ht] at hn; cases hn
  | cons k path ih =>
      rw [Table.assign]
      split
      · rename_i t' hg
        refine h.insert k fun t'' ht => ?_
        cases ht
        exact ih (h.table hg)
      · exact h

theorem Ordered.openSection {keys : List Bytes} (h : Ordered t) (ho : t.openSection keys = .ok t') :
    Ordered t' := by
  induction keys generalizing t t' with
  | nil =>
      cases ho
      exact h
  | cons k keys ih =>
      obtain ⟨t₀, t₁, hopens, h₁, rfl⟩ := openSection_cons_eq_ok_iff.mp ho
      refine h.insert k fun t'' ht => ?_
      cases ht
      refine ih ?_ h₁
      rcases hopens with hg | ⟨-, rfl⟩
      · exact h.table hg
      · exact ordered_nil

end Table

end Toml

end DoctypeProbe
