import DoctypeProbe.Proofs.Toml.Effects
import DoctypeProbe.Proofs.Toml.Writing

/-!
# Tables Written and Read Back

A table is written as the assignments of its values, followed by its tables: for each of them a
section header with its path, its assignments, and its tables in turn. The entries can be written
in any order, so what is written is a list of entries rather than a table, and what is read back is
the table with these entries in order.

Reading back rests on what the statements do. Each effect of a listing agrees with the table that
is listed, so no effect undoes what another has done, and everything that the table holds is the
effect of some statement. The order of the statements does not come into it.

## Main results

* `Toml.heldAfter_of_agrees`: effects that agree with a table, and are all of it, give the table.
* `Toml.mem_effects_listing`: the effects of a listing.
* `Toml.parse_write`: writing a table and reading it gives it back.
-/

namespace DoctypeProbe

namespace Toml

/-! ### Writing -/

/-- The values among entries. -/
def values (entries : List (Bytes × Node)) : List (Bytes × Node) :=
  entries.filter fun entry => !entry.2.isTable

/-- The assignments of the values among entries. -/
def assignments (entries : List (Bytes × Node)) : List Statement :=
  (values entries).map fun entry => .assign entry.1 entry.2

mutual

/-- The sections of the tables among entries, which are themselves at a path. -/
def sections (path : List Bytes) : List (Bytes × Node) → List Statement
  | [] => []
  | (key, node) :: entries => node.sections (path ++ [key]) ++ sections path entries

/-- The section of a table at a path, and those of the tables in it. -/
def Node.sections (path : List Bytes) : Node → List Statement
  | .table entries =>
    .header (Table.dotted path) :: (assignments entries ++ sections path entries)
  | _ => []

end

/-- Entries at a path as statements: the values, and then the tables. -/
def listing (path : List Bytes) (entries : List (Bytes × Node)) : List Statement :=
  assignments entries ++ sections path entries

/-- Entries as a document. -/
def write (entries : List (Bytes × Node)) : Bytes := writeAll (listing [] entries)

mutual

/-- A node with its entries in order, if it is a table. -/
def Node.ordered : Node → Node
  | .table entries => .table (ordered entries)
  | node => node

/-- The table that entries make up, whatever order they are in. -/
def ordered : List (Bytes × Node) → Table
  | [] => []
  | (key, node) :: entries => Keyed.insert (ordered entries) key node.ordered

end

/-- Entries that can be written: their keys are bare and no two of them are the same, their values
hold neither floating-point numbers nor tables, and their tables can be written. -/
inductive Writable : List (Bytes × Node) → Prop
  | intro {entries : List (Bytes × Node)} :
      (entries.map Prod.fst).Nodup → (∀ entry ∈ entries, IsBareKey entry.1) →
        (∀ entry ∈ values entries, entry.2.Plain) →
          (∀ key entries', (key, .table entries') ∈ entries → Writable entries') → Writable entries

variable {entries : List (Bytes × Node)} {path base : List Bytes} {e : Effect} {es : List Effect}

/-! ### Entries in order -/

theorem Node.ordered_of_not_isTable {node : Node} (h : node.isTable = false) :
    node.ordered = node := by
  cases node with
  | table _ => cases h
  | _ => rfl

theorem get?_ordered (entries : List (Bytes × Node)) (key : Bytes) :
    (ordered entries).get? key = (Keyed.get? entries key).map Node.ordered := by
  induction entries with
  | nil => rfl
  | cons entry entries ih =>
      obtain ⟨k, node⟩ := entry
      rw [ordered, Keyed.get?_insert, Keyed.get?_cons, ih]
      split <;> rfl

/-- **Putting entries in order** does not change what they hold. -/
theorem held_ordered (entries : List (Bytes × Node)) (q : List Bytes) :
    (ordered entries).held q = Table.held entries q := by
  induction q generalizing entries with
  | nil => rfl
  | cons k ks ih =>
      have hget := get?_ordered entries k
      rcases Table.get?_cases entries k with hg | ⟨entries', hg⟩ | ⟨node, hg, hn⟩
      · rw [hg] at hget
        rw [Table.held_cons_of_none hg, Table.held_cons_of_none hget]
      · rw [hg] at hget
        rw [Table.held_cons_of_table hg, Table.held_cons_of_table hget, ih]
      · rw [hg, Option.map_some, Node.ordered_of_not_isTable hn] at hget
        rw [Table.held_cons_of_value hg hn, Table.held_cons_of_value hget hn]

mutual

theorem ordered_isOrdered : (entries : List (Bytes × Node)) → (ordered entries).Ordered
  | [] => Table.ordered_nil
  | (key, node) :: entries =>
    (ordered_isOrdered entries).insert key (Node.isOrdered_of_ordered_eq node)

theorem Node.isOrdered_of_ordered_eq :
    (node : Node) → ∀ t, node.ordered = .table t → Table.Ordered t
  | .table entries, _, rfl => ordered_isOrdered entries

end

/-- A table has its entries in order already. -/
theorem ordered_eq_self {t : Table} (h : t.Ordered) : ordered t = t :=
  (ordered_isOrdered t).ext h (held_ordered t)

/-! ### Effects that agree with a table -/

/-- An effect that makes what a table holds anyway. -/
def Effect.Agrees (t : Table) : Effect → Prop
  | .opens path => t.held path = .table
  | .assigns path value => t.held path = .value value

/-- The effect that makes a path hold what it does. -/
def Held.effect? (q : List Bytes) : Held → Option Effect
  | .nothing => none
  | .table => some (.opens q)
  | .value node => some (.assigns q node)

variable {t : Table}

theorem Effect.Agrees.on (h : e.Agrees t) (q : List Bytes) : e.on q (t.held q) = t.held q := by
  cases e with
  | opens path =>
      rw [Effect.on]
      split_ifs with hq
      · exact (Table.held_eq_table_of_prefix h hq).symm
      · rfl
  | assigns path value =>
      rw [Effect.on]
      split_ifs with he hq
      · exact he ▸ h.symm
      · exact (Table.held_eq_nothing_of_prefix h hq he).symm
      · rfl

theorem foldl_on_of_agrees (h : ∀ e ∈ es, e.Agrees t) (q : List Bytes) :
    es.foldl (Effect.on q) (t.held q) = t.held q := by
  induction es with
  | nil => rfl
  | cons e es ih =>
      obtain ⟨he, hes⟩ := List.forall_mem_cons.mp h
      rw [List.foldl_cons, he.on, ih hes]

theorem on_of_effect? {q : List Bytes} (h : (t.held q).effect? q = some e) (held : Held) :
    e.on q held = t.held q := by
  cases hq : t.held q with
  | nothing =>
      rw [hq] at h
      cases h
  | table =>
      rw [hq] at h
      cases h
      exact if_pos (List.prefix_refl q)
  | value node =>
      rw [hq] at h
      cases h
      exact if_pos rfl

/-- **Effects that agree with a table**, and are all of it, give the table. -/
theorem heldAfter_of_agrees (h : ∀ e ∈ es, e.Agrees t)
    (hall : ∀ q ≠ [], ∀ e, (t.held q).effect? q = some e → e ∈ es) (q : List Bytes) :
    heldAfter es q = t.held q := by
  by_cases hq : q = []
  · subst hq
    exact foldl_on_of_agrees h []
  · cases he : (t.held q).effect? q with
    | none =>
        have hnothing : Table.held [] q = t.held q := by
          rw [Table.held_nil, if_neg hq]
          cases hheld : t.held q with
          | nothing => rfl
          | _ => rw [hheld] at he; cases he
        rw [heldAfter, hnothing, foldl_on_of_agrees h]
    | some e =>
        -- the effect makes what is held, and those after it leave it
        obtain ⟨before, after, rfl⟩ := List.append_of_mem (hall q hq e he)
        obtain ⟨-, hafter⟩ := List.forall_mem_append.mp h
        rw [heldAfter, List.foldl_append, List.foldl_cons, on_of_effect? he,
          foldl_on_of_agrees (List.forall_mem_cons.mp hafter).2]

/-- Effects that agree with a table do not block each other. -/
theorem not_blocks_of_agrees {e' : Effect} (h : e.Agrees t) (h' : e'.Agrees t) : ¬e.Blocks e' := by
  intro hb
  cases e with
  | opens _ => exact hb
  | assigns path value =>
      cases e' with
      | assigns _ _ => exact hb
      | opens path' =>
          have hvalue : t.held path = .value value := h
          rw [Table.held_eq_table_of_prefix h' hb] at hvalue
          cases hvalue

/-! ### What a listing does -/

theorem effects_append (base : List Bytes) (sts sts' : List Statement) :
    effects base (sts ++ sts') =
      effects base sts ++ effects (sts.foldl Statement.pathAfter base) sts' := by
  induction sts generalizing base with
  | nil => rfl
  | cons st sts ih => simp [effects, ih]

theorem effects_assignments (base : List Bytes) (entries : List (Bytes × Node))
    (sts : List Statement) :
    effects base (assignments entries ++ sts) =
      (values entries).map (fun entry => .assigns (base ++ [entry.1]) entry.2) ++
        effects base sts := by
  rw [assignments]
  induction values entries with
  | nil => rfl
  | cons entry entries ih => exact congrArg (_ :: ·) ih

theorem mem_values {entry : Bytes × Node} :
    entry ∈ values entries ↔ entry ∈ entries ∧ entry.2.isTable = false := by
  simp [values]

/-- A table among entries is the first of them, or one of the others. -/
theorem exists_table_mem_cons {P : Bytes → List (Bytes × Node) → Prop} {k : Bytes} {node : Node} :
    (∃ key entries', (key, .table entries') ∈ (k, node) :: entries ∧ P key entries') ↔
      (∃ entries', node = .table entries' ∧ P k entries') ∨
        ∃ key entries', (key, .table entries') ∈ entries ∧ P key entries' := by
  simp only [List.mem_cons, Prod.mk.injEq, or_and_right, exists_or, and_assoc, exists_and_left,
    exists_eq_left, eq_comm (a := node)]

/-- The sections of entries, table by table. -/
theorem mem_sections {st : Statement} :
    st ∈ sections path entries ↔ ∃ key entries', (key, .table entries') ∈ entries ∧
      (st = .header (Table.dotted (path ++ [key])) ∨ st ∈ listing (path ++ [key]) entries') := by
  induction entries with
  | nil => simp [sections]
  | cons entry entries ih =>
      obtain ⟨k, node⟩ := entry
      rw [sections, List.mem_append, ih, exists_table_mem_cons]
      refine or_congr_left ?_
      cases node <;> simp [Node.sections, listing]

theorem IsBareKey.dot_not_mem {key : Bytes} (h : IsBareKey key) : Ascii.dot ∉ key :=
  fun hmem => absurd (List.all_eq_true.mp h.2 _ hmem) (by decide)

/-- What the sections of entries do, table by table. A section begins with its header, so it does
not matter which section is before it. -/
theorem mem_effects_sections (hkeys : ∀ entry ∈ entries, IsBareKey entry.1)
    (hpath : ∀ k ∈ path, IsBareKey k) :
    e ∈ effects base (sections path entries) ↔ ∃ key entries', (key, .table entries') ∈ entries ∧
      (e = .opens (path ++ [key]) ∨
        e ∈ effects (path ++ [key]) (listing (path ++ [key]) entries')) := by
  induction entries generalizing base with
  | nil => simp [sections, effects]
  | cons entry entries ih =>
      obtain ⟨k, node⟩ := entry
      obtain ⟨hk, hkeys⟩ := List.forall_mem_cons.mp hkeys
      rw [sections, effects_append, List.mem_append, ih hkeys, exists_table_mem_cons]
      refine or_congr_left ?_
      have hkeysOf : Table.keysOf (Table.dotted (path ++ [k])) = path ++ [k] :=
        Table.keysOf_dotted (fun k hk => (hpath k hk).dot_not_mem) hk.dot_not_mem hk.1
      cases node <;>
        simp [Node.sections, effects, Statement.effect, Statement.pathAfter, hkeysOf, listing]

/-- **What a listing does**: it assigns the values, and for each table opens it and does what its
listing does. -/
theorem mem_effects_listing (hkeys : ∀ entry ∈ entries, IsBareKey entry.1)
    (hpath : ∀ k ∈ path, IsBareKey k) :
    e ∈ effects path (listing path entries) ↔
      (∃ entry ∈ values entries, e = .assigns (path ++ [entry.1]) entry.2) ∨
        ∃ key entries', (key, .table entries') ∈ entries ∧
          (e = .opens (path ++ [key]) ∨
            e ∈ effects (path ++ [key]) (listing (path ++ [key]) entries')) := by
  rw [listing, effects_assignments, List.mem_append, mem_effects_sections hkeys hpath]
  simp [eq_comm]

/-! ### Reading back -/

theorem forall_bare_append {key : Bytes} (hpath : ∀ k ∈ path, IsBareKey k) (hkey : IsBareKey key) :
    ∀ k ∈ path ++ [key], IsBareKey k := by
  simpa [or_imp, forall_and] using ⟨hpath, hkey⟩

theorem IsBareKey.isPathByte {key : Bytes} (h : IsBareKey key) : key.all isPathByte = true := by
  rw [List.all_eq_true]
  exact fun b hb => Bool.or_eq_true_iff.mpr (Or.inl (List.all_eq_true.mp h.2 b hb))

/-- The path of a table can stand in a section header. -/
theorem writable_header {key : Bytes} (hpath : ∀ k ∈ path, IsBareKey k) (hkey : IsBareKey key) :
    (Statement.header (Table.dotted (path ++ [key]))).Writable := by
  induction path with
  | nil =>
      rw [List.nil_append, Table.dotted_singleton]
      exact ⟨hkey.1, hkey.isPathByte⟩
  | cons k path ih =>
      obtain ⟨hk, hpath⟩ := List.forall_mem_cons.mp hpath
      obtain ⟨-, hbytes⟩ := ih hpath
      rw [List.cons_append, Table.dotted_cons k (by simp)]
      exact ⟨by simp, by rw [List.all_append, hk.isPathByte, List.all_cons, hbytes]; rfl⟩

/-- **The statements of a listing** can be written. -/
theorem Writable.statement (h : Writable entries) (hpath : ∀ k ∈ path, IsBareKey k) :
    ∀ st ∈ listing path entries, st.Writable := by
  induction h generalizing path with
  | @intro entries _ hkeys hplain _ ih =>
      intro st hst
      rcases List.mem_append.mp hst with hst | hst
      · obtain ⟨entry, hentry, rfl⟩ := List.mem_map.mp hst
        exact ⟨hkeys entry (mem_values.mp hentry).1, hplain entry hentry⟩
      · obtain ⟨key, sub, hmem, hst⟩ := mem_sections.mp hst
        have hkey : IsBareKey key := hkeys _ hmem
        rcases hst with rfl | hst
        · exact writable_header hpath hkey
        · exact ih key sub hmem (forall_bare_append hpath hkey) st hst

/-- **The effects of a listing** agree with a table that holds the entries. -/
theorem Writable.agrees (h : Writable entries) (hpath : ∀ k ∈ path, IsBareKey k)
    (ht : ∀ q, t.held (path ++ q) = Table.held entries q) :
    ∀ e ∈ effects path (listing path entries), e.Agrees t := by
  induction h generalizing path with
  | @intro entries hnodup hkeys _ _ ih =>
      intro e he
      rcases (mem_effects_listing hkeys hpath).mp he with ⟨⟨key, node⟩, hentry, rfl⟩ |
        ⟨key, sub, hmem, he⟩
      · obtain ⟨hmem, hn⟩ := mem_values.mp hentry
        have hg := Keyed.get?_of_mem hnodup hmem
        exact (ht [key]).trans ((Table.held_cons_of_value hg hn).trans (if_pos rfl))
      · have hg := Keyed.get?_of_mem hnodup hmem
        have hsub : ∀ q, t.held (path ++ [key] ++ q) = Table.held sub q := fun q => by
          rw [List.append_assoc, List.singleton_append, ht, Table.held_cons_of_table hg]
        rcases he with rfl | he
        · have hopen := hsub []
          rwa [List.append_nil] at hopen
        · exact ih key sub hmem (forall_bare_append hpath (hkeys _ hmem)) hsub e he

/-- **Everything that is held** is the effect of a statement of the listing. -/
theorem Writable.mem_effects (h : Writable entries) (hpath : ∀ k ∈ path, IsBareKey k)
    {q : List Bytes} (hq : q ≠ []) (he : (Table.held entries q).effect? (path ++ q) = some e) :
    e ∈ effects path (listing path entries) := by
  induction q generalizing entries path with
  | nil => exact absurd rfl hq
  | cons k ks ih =>
      obtain ⟨-, hkeys, -, hsub⟩ := h
      rw [mem_effects_listing hkeys hpath]
      rcases Table.get?_cases entries k with hg | ⟨sub, hg⟩ | ⟨node, hg, hn⟩
      · rw [Table.held_cons_of_none hg] at he
        cases he
      · have hmem := Keyed.mem_of_get? hg
        rw [Table.held_cons_of_table hg] at he
        refine Or.inr ⟨k, sub, hmem, ?_⟩
        by_cases hks : ks = []
        · subst hks
          exact Or.inl (Option.some.inj he).symm
        · refine Or.inr (ih (hsub k sub hmem) (forall_bare_append hpath (hkeys _ hmem)) hks ?_)
          rwa [List.append_assoc, List.singleton_append]
      · rw [Table.held_cons_of_value hg hn] at he
        split_ifs at he with hks
        · subst hks
          exact Or.inl ⟨(k, node), mem_values.mpr ⟨Keyed.mem_of_get? hg, hn⟩,
            (Option.some.inj he).symm⟩
        · cases he

/-- **Writing a table and reading it** gives it back. The entries may be written in any order, also
those of the tables in the table; what is read is the table with these entries. -/
theorem parse_write (h : Writable entries) :
    parse (write entries) = .ok (ordered entries) ∧
      (Table.Ordered entries → parse (write entries) = .ok entries) := by
  have hscript : Script (afterBlank (write entries)) (listing [] entries) :=
    script_writeAll (h.statement (List.forall_mem_nil _))
  have hagrees := h.agrees (t := entries) (List.forall_mem_nil _) fun q => rfl
  have hparse : parse (write entries) = .ok (ordered entries) := by
    refine (parse_eq_ok_iff_of_script hscript).mpr ⟨?_, ordered_isOrdered entries, fun q => ?_⟩
    · exact List.pairwise_of_forall_mem_list fun a ha b hb =>
        not_blocks_of_agrees (hagrees a ha) (hagrees b hb)
    · rw [held_ordered]
      exact (heldAfter_of_agrees hagrees
        (fun q hq e he => h.mem_effects (List.forall_mem_nil _) hq he) q).symm
  refine ⟨hparse, fun ho => ?_⟩
  rw [hparse, ordered_eq_self ho]

/-- A table with tables in it, an empty one among them, and with values of every kind that can be
written. -/
def nestedSample : Table :=
  [(ascii "empty", .table []),
    (ascii "list", .array [.array [], .array [.boolean true, .string (ascii "], #")], .integer 7]),
    (ascii "server", .table [(ascii "port-1", .integer (-9223372036854775808)),
      (ascii "tls", .table [(ascii "on", .boolean false)])]),
    (ascii "text", .string (ascii "say \"\\n\"\n\r\x00#"))]

/-- The document that it is written as. -/
def nestedText : Bytes :=
  ascii ("list = [[], [true, \"], #\"], 7]\n" ++
    "text = \"say \\\"\\\\n\\\"\\n\r\x00#\"\n" ++
    "[empty]\n" ++
    "[server]\nport-1 = -9223372036854775808\n" ++
    "[server.tls]\non = false\n")

theorem write_nestedSample : write nestedSample = nestedText := by decide +kernel

theorem writable_nestedSample : Writable nestedSample := by
  have hpair : (Node.array [.boolean true, .string (ascii "], #")]).Plain := .array (by
    simpa using ⟨Node.Plain.boolean true, Node.Plain.string _⟩)
  have hlist : (Node.array [.array [], .array [.boolean true, .string (ascii "], #")],
      .integer 7]).Plain := .array (by
    simpa using ⟨.array (by simp), hpair, Node.Plain.integer 7⟩)
  have hempty : Writable [] := .intro (by simp) (by simp) (by simp [values]) (by simp)
  have htls : Writable [(ascii "on", .boolean false)] := .intro (by simp) (by decide)
    (by simpa [values, Node.isTable] using Node.Plain.boolean false) (by simp)
  have hserver : Writable [(ascii "port-1", .integer (-9223372036854775808)),
      (ascii "tls", .table [(ascii "on", .boolean false)])] := .intro (by decide) (by decide)
    (by simpa [values, Node.isTable] using Node.Plain.integer _) (by simpa using htls)
  refine .intro (by decide) (by decide) ?_ ?_
  · simpa [nestedSample, values, Node.isTable] using ⟨hlist, Node.Plain.string _⟩
  · simpa [nestedSample, or_imp, forall_and] using ⟨hempty, hserver⟩

theorem parse_write_nestedSample : Writable nestedSample ∧ Table.Ordered nestedSample ∧
    write nestedSample = nestedText ∧ parse nestedText = .ok nestedSample := by
  have hordered : Table.Ordered nestedSample := ordered_isOrdered nestedSample
  have hparse := (parse_write writable_nestedSample).2 hordered
  rw [write_nestedSample] at hparse
  exact ⟨writable_nestedSample, hordered, write_nestedSample, hparse⟩

end Toml

end DoctypeProbe
