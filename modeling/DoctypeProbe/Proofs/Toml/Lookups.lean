import DoctypeProbe.Proofs.Toml.Tables

/-!
# Lookups Along Dotted Paths

A dotted path can be followed all at once or in parts. Following it to some dot gives a table, or
nothing is at the end of the whole path; what stands there is then found from this table by the
rest of the path. Cut at every dot, the path is followed one key at a time.

Where the rest begins depends on the dot that is cut at alone: `Table.atPath_append_dot` holds of
every text in front of it. That the front can be looked up without this dot takes a last key in it:
a front that is empty or ends in a dot would lose an empty key.

## Main results

* `Table.find?_append`: keys are followed one part after the other.
* `Table.atPath_append_dot`: the same for a path cut at a dot.
* `Table.atPath_composes`: a path in two parts, and a path key by key.
-/

namespace DoctypeProbe

namespace Toml

/-- The table that a node is, if it is one. -/
def Node.table? : Node → Option Table
  | .table t => some t
  | _ => none

theorem Node.table?_eq_some_iff {node : Node} {t : Table} :
    node.table? = some t ↔ node = .table t := by
  cases node <;> simp [Node.table?]

/-- What stands at a key of a node. Only a table has keys. -/
def Node.child? (node : Node) (key : Bytes) : Option Node := node.table?.bind (Keyed.get? · key)

namespace Table

/-- What stands at the end of a path of keys from a node. -/
def below? (node : Option Node) (path : List Bytes) : Option Node :=
  (node.bind Node.table?).bind (find? · path)

theorem below?_of_table {node : Option Node} {t : Table} (h : node = some (.table t))
    (path : List Bytes) : below? node path = t.find? path := by
  rw [h]
  rfl

theorem below?_of_not_table {node : Option Node} (h : ∀ t, node ≠ some (.table t))
    (path : List Bytes) : below? node path = none := by
  have hnone : node.bind Node.table? = none := by
    rw [Option.eq_none_iff_forall_ne_some]
    intro t ht
    obtain ⟨node', hnode, htable⟩ := Option.bind_eq_some_iff.mp ht
    exact h t (hnode.trans (congrArg some (Node.table?_eq_some_iff.mp htable)))
  rw [below?, hnone, Option.bind_none]

/-! ### Paths of keys -/

/-- The first key of a longer path leads to the node that the others are followed from. -/
theorem find?_cons (t : Table) (key : Bytes) {path : List Bytes} (h : path ≠ []) :
    t.find? (key :: path) = below? (t.get? key) path := by
  obtain ⟨k, ks, rfl⟩ := List.exists_cons_of_ne_nil h
  rw [find?]
  · split
    · rename_i t' hg
      exact (below?_of_table hg _).symm
    · rename_i hg
      exact (below?_of_not_table hg _).symm
  · exact h

/-- **Keys are followed one part after the other.** -/
theorem find?_append (t : Table) {front rest : List Bytes} (hfront : front ≠ [])
    (hrest : rest ≠ []) : t.find? (front ++ rest) = below? (t.find? front) rest := by
  fun_induction find? t front with
  | case1 => exact absurd rfl hfront
  | case2 t key => exact find?_cons t key hrest
  | case3 t key keys hkeys t' hg ih =>
      have hne : keys ≠ [] := fun h => hkeys h
      rw [List.cons_append, find?_cons t key (List.append_ne_nil_of_left_ne_nil hne rest),
        below?_of_table hg, ih hne]
  | case4 t key keys hkeys hg =>
      have hne : keys ≠ [] := fun h => hkeys h
      rw [List.cons_append, find?_cons t key (List.append_ne_nil_of_left_ne_nil hne rest),
        below?_of_not_table hg]
      rfl

/-- A path of keys is followed one key at a time. -/
theorem find?_eq_foldlM (t : Table) (key : Bytes) (keys : List Bytes) :
    t.find? (key :: keys) = (key :: keys).foldlM Node.child? (.table t) := by
  induction keys generalizing t key with
  | nil => simp [find?, Node.child?, Node.table?]
  | cons k keys ih =>
      rw [find?_cons t key (List.cons_ne_nil k keys), List.foldlM_cons]
      change _ = (t.get? key).bind fun node => (k :: keys).foldlM Node.child? node
      rcases get?_cases t key with hg | ⟨t', hg⟩ | ⟨node, hg, hn⟩
      · rw [hg]
        rfl
      · rw [hg]
        exact ih t' k
      · rw [hg]
        cases node with
        | table t' => cases hn
        | _ => rfl

/-! ### Dotted paths -/

theorem keysOf_ne_nil {path : Bytes} (h : path ≠ []) : keysOf path ≠ [] :=
  Bytes.fields_ne_nil h Ascii.dot

/-- **A path cut at a dot**: the rest is followed from what stands at the front with this dot. -/
theorem atPath_append_dot (t : Table) (front : Bytes) {rest : Bytes} (hrest : rest ≠ []) :
    t.atPath (front ++ Ascii.dot :: rest) =
      below? (t.atPath (front ++ [Ascii.dot])) (keysOf rest) := by
  have hfront : keysOf (front ++ [Ascii.dot]) ≠ [] :=
    keysOf_ne_nil (List.append_ne_nil_of_right_ne_nil _ (List.cons_ne_nil _ _))
  rw [atPath, keysOf, Bytes.fields_append_separator]
  exact find?_append t hfront (keysOf_ne_nil hrest)

/-- A dot at the end of a path with a last key adds nothing. -/
theorem atPath_append_dot_nil (t : Table) {path : Bytes} (hne : path ≠ [])
    (hlast : path.getLast? ≠ some Ascii.dot) : t.atPath (path ++ [Ascii.dot]) = t.atPath path := by
  rw [atPath, keysOf, Bytes.fields_append_singleton hne hlast, atPath, keysOf]

/-- **Lookups compose.** Take two texts that are not empty, the first of which does not end in a
dot. The path of the two with a dot between them leads, if the first one leads to a table, to what
the second one leads to from this table, and nowhere otherwise. A path of keys that are not empty
and have no dots in them is followed key by key, and a path without any key leads nowhere. -/
theorem atPath_composes (t : Table) :
    (∀ front rest : Bytes, front ≠ [] → front.getLast? ≠ some Ascii.dot → rest ≠ [] →
      (∀ t', t.atPath front = some (.table t') →
        t.atPath (front ++ Ascii.dot :: rest) = atPath t' rest) ∧
      ((∀ t', t.atPath front ≠ some (.table t')) →
        t.atPath (front ++ Ascii.dot :: rest) = none)) ∧
    (∀ keys : List Bytes, keys ≠ [] → (∀ key ∈ keys, key ≠ [] ∧ Ascii.dot ∉ key) →
      t.atPath (dotted keys) = keys.foldlM Node.child? (.table t)) ∧
    t.atPath (dotted []) = none := by
  refine ⟨fun front rest hfront hlast hrest => ?_, fun keys hne hkeys => ?_, rfl⟩
  · rw [atPath_append_dot t front hrest, atPath_append_dot_nil t hfront hlast]
    exact ⟨fun t' ht' => below?_of_table ht' (keysOf rest),
      fun hnone => below?_of_not_table hnone (keysOf rest)⟩
  · have hlast := List.dropLast_append_getLast hne
    have hkeysOf : keysOf (dotted keys) = keys := by
      rw [← hlast]
      exact keysOf_dotted (fun k hk => (hkeys k (List.dropLast_subset keys hk)).2)
        (hkeys _ (List.getLast_mem hne)).2 (hkeys _ (List.getLast_mem hne)).1
    rw [atPath, hkeysOf]
    obtain ⟨key, rest, rfl⟩ := List.exists_cons_of_ne_nil hne
    exact find?_eq_foldlM t key rest

/-- A table in a table in a table, and a text beside the outer one. -/
def lookupSample : Table :=
  [(ascii "a", .table [(ascii "b", .table [(ascii "c", .boolean true)])]), (ascii "x", .string [])]

theorem atPath_lookupSample :
    let inner : Table := [(ascii "c", .boolean true)]
    lookupSample.atPath (ascii "a.b") = some (.table inner) ∧
      lookupSample.atPath (ascii "a.b" ++ Ascii.dot :: ascii "c") = inner.atPath (ascii "c") ∧
      lookupSample.atPath (ascii "x" ++ Ascii.dot :: ascii "c") = none ∧
      lookupSample.atPath (dotted [ascii "a", ascii "b", ascii "c"]) =
        [ascii "a", ascii "b", ascii "c"].foldlM Node.child? (.table lookupSample) := by
  obtain ⟨hparts, hkeys, -⟩ := atPath_composes lookupSample
  have hinner : lookupSample.atPath (ascii "a.b") =
      some (.table [(ascii "c", .boolean true)]) := rfl
  have htext : lookupSample.atPath (ascii "x") = some (.string []) := rfl
  refine ⟨hinner, ?_, ?_, ?_⟩
  · exact (hparts _ _ (by decide) (by decide) (by decide)).1 _ hinner
  · exact (hparts _ _ (by decide) (by decide) (by decide)).2 fun t' ht' => by
      rw [htext] at ht'
      cases ht'
  · exact hkeys _ (by decide) (by decide)

end Table

end Toml

end DoctypeProbe
