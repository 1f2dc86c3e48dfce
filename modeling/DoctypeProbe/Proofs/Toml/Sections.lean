import DoctypeProbe.Proofs.Toml.Assignments
import DoctypeProbe.Proofs.Toml.Comments
import DoctypeProbe.Proofs.Toml.RoundTrip
import Mathlib.Data.List.Nodup
import Mathlib.Data.List.Perm.Basic

/-!
# The Order of Sections

A document may be a list of sections, each of a header and the assignments below it. Headers make
tables as they come, and open those that another section has made; so the effects of a section
depend on what was there before. They depend on it less than it seems: what an effect makes of a
path does not hang on how the table at that path came about, and two effects commute at every path
unless one of them is an assignment to a path that leads to that of the other (`Effect.Apart`).

If no path is assigned to twice, and none is both that of a value and that of a table, all effects
of a document are apart. Its sections can then be put in any order, and so can the lines in each
of them.

## Main results

* `Toml.script_lines`: the script of a text that is put together from lines.
* `Toml.heldAfter_perm`: effects that are apart can be put in any order.
* `Toml.parse_reordered`: so can the sections of a document, and their lines.
-/

namespace DoctypeProbe

namespace Toml

/-! ### Effects that commute -/

/-- Two effects are apart if neither assigns to a path that leads to that of the other. -/
def Effect.Apart : Effect → Effect → Prop
  | .opens _, .opens _ => True
  | .opens path, .assigns path' _ => ¬path' <+: path
  | .assigns path _, .opens path' => ¬path <+: path'
  | .assigns path _, .assigns path' _ => ¬path <+: path' ∧ ¬path' <+: path

/-- An assignment and a section that it does not block commute. -/
theorem on_comm_opens {path path' : List Bytes} (value : Node) (h : ¬path' <+: path)
    (q : List Bytes) (held : Held) :
    (Effect.assigns path' value).on q ((Effect.opens path).on q held) =
      (Effect.opens path).on q ((Effect.assigns path' value).on q held) := by
  simp only [Effect.on]
  by_cases hq : q <+: path
  · have hbelow : ¬path' <+: q := fun hp => h (hp.trans hq)
    have hne : q ≠ path' := fun he => h (he ▸ hq)
    rw [if_pos hq, if_pos hq, if_neg hne, if_neg hbelow]
  · rw [if_neg hq, if_neg hq]

/-- **Effects that are apart commute** at every path. -/
theorem Effect.Apart.on_comm {e e' : Effect} (h : e.Apart e') (q : List Bytes) (held : Held) :
    e'.on q (e.on q held) = e.on q (e'.on q held) := by
  cases e with
  | opens path =>
      cases e' with
      | opens path' =>
          simp only [Effect.on]
          split_ifs <;> rfl
      | assigns path' value' => exact on_comm_opens value' h q held
  | assigns path value =>
      cases e' with
      | opens path' => exact (on_comm_opens value h q held).symm
      | assigns path' value' =>
          obtain ⟨hp, hp'⟩ := h
          simp only [Effect.on]
          by_cases hq : q = path
          · have hne : q ≠ path' := fun he => hp (hq ▸ he ▸ List.prefix_rfl)
            have hbelow : ¬path' <+: q := fun hb => hp' (hq ▸ hb)
            rw [if_neg hne, if_neg hbelow, if_pos hq, if_pos hq]
          · by_cases hq' : q = path'
            · have hbelow : ¬path <+: q := fun hb => hp (hq' ▸ hb)
              rw [if_pos hq', if_neg hq, if_neg hbelow, if_pos hq']
            · rw [if_neg hq, if_neg hq', if_neg hq, if_neg hq']
              split_ifs <;> rfl

/-- **Effects that are apart** can be put in any order. -/
theorem heldAfter_perm {es es' : List Effect} (hperm : es.Perm es')
    (hapart : ∀ e ∈ es, ∀ e' ∈ es, e = e' ∨ e.Apart e') (q : List Bytes) :
    heldAfter es q = heldAfter es' q := by
  refine hperm.foldl_eq' (fun e he e' he' held => ?_) _
  rcases hapart e he e' he' with rfl | h
  · rfl
  · exact h.on_comm q held

/-! ### Lines -/

/-- What is read from a text alone is one statement. -/
def IsLine (text : Bytes) (st : Statement) : Prop := Script (afterBlank text) [st]

/-- A document of lines, with or without a line end behind the last. -/
def ofLines (lines : List Bytes) (ending : Bytes) : Bytes :=
  [Ascii.lf].intercalate lines ++ ending

/-- **The script of lines** is what they say one after the other. -/
theorem script_lines {lines : List (Bytes × Statement)} {ending : Bytes}
    (hending : ending = [] ∨ ending = [Ascii.lf]) (h : ∀ line ∈ lines, IsLine line.1 line.2) :
    Script (afterBlank (ofLines (lines.map Prod.fst) ending)) (lines.map Prod.snd) := by
  have hnew : OnNewLine ending := by
    rcases hending with rfl | rfl
    · exact onNewLine_nil
    · exact onNewLine_cons []
  have hblank : Script (afterBlank ending) [] := by
    rcases hending with rfl | rfl <;> exact .nil
  induction lines with
  | nil => exact hblank
  | cons line lines ih =>
      obtain ⟨hline, hlines⟩ := List.forall_mem_cons.mp h
      cases lines with
      | nil =>
          have hjoin : ofLines [line.1] ending = line.1 ++ ending := by
            rw [ofLines, List.intercalate_singleton]
          exact hjoin ▸ hline.annotated hnew (annotated_append _ _) hblank
      | cons line' lines =>
          have hjoin : ofLines ((line :: line' :: lines).map Prod.fst) ending =
              line.1 ++ Ascii.lf :: ofLines ((line' :: lines).map Prod.fst) ending := by
            simp [ofLines, List.intercalate_cons_cons]
          rw [hjoin]
          refine hline.annotated (onNewLine_cons _) (annotated_append _ _) ?_
          rw [afterBlank_lineFeed]
          exact ih hlines

/-- A header of bare keys is a line. -/
theorem isLine_header {path : Bytes} (hne : path ≠ []) (hpath : path.all isPathByte = true) :
    IsLine (Ascii.openBracket :: path ++ [Ascii.closeBracket]) (.header path) := by
  have hstatement : statement? (Ascii.openBracket :: (path ++ [Ascii.closeBracket])) =
      some (.header path, []) := by
    rw [statement?, if_pos rfl, header?_write hne hpath]
    rfl
  have hblank : afterBlank (Ascii.openBracket :: path ++ [Ascii.closeBracket]) =
      Ascii.openBracket :: (path ++ [Ascii.closeBracket]) :=
    afterBlank_cons_of_not rfl rfl (by decide) _
  rw [IsLine, hblank]
  exact .cons hstatement rfl .nil

/-- A bare key and the text of a value make a line. -/
theorem isLine_assignment {key text : Bytes} {value : Node} (hkey : IsBareKey key)
    (hvalue : value? text = some (value, [])) :
    IsLine (key ++ ascii " = " ++ text) (.assign key value) := by
  rw [IsLine, List.append_assoc, hkey.afterBlank_append, ← List.append_assoc]
  exact .cons (statement?_of_value? hkey hvalue) rfl .nil

/-! ### Sections -/

/-- A line that assigns a value to a key. -/
structure Entry where
  /-- The line. -/
  text : Bytes
  /-- The key. -/
  key : Bytes
  /-- The value. -/
  value : Node
  isLine : IsLine text (.assign key value)

/-- A section: a header and the assignments below it. -/
structure Section where
  /-- The line of the header. -/
  heading : Bytes
  /-- The dotted path in the header. -/
  path : Bytes
  /-- The lines below the header. -/
  entries : List Entry
  isLine : IsLine heading (.header path)

namespace Section

/-- The keys of the table that a section opens. -/
def keys (s : Section) : List Bytes := Table.keysOf s.path

/-- The lines of a section, and what they say. -/
def lines (s : Section) : List (Bytes × Statement) :=
  (s.heading, .header s.path) :: s.entries.map fun e => (e.text, .assign e.key e.value)

/-- The paths that a section assigns to, and their values. -/
def assignments (s : Section) : List (List Bytes × Node) :=
  s.entries.map fun e => (s.keys ++ [e.key], e.value)

/-- What a section does. -/
def effects (s : Section) : List Effect :=
  .opens s.keys :: s.assignments.map fun (path, value) => .assigns path value

/-- Two sections with the same header, and the same lines in some order. -/
def Reordered (s s' : Section) : Prop := s.heading = s'.heading ∧ s.entries.Perm s'.entries

/-- What a header says is the same wherever it stands. -/
theorem Reordered.keys_eq {s s' : Section} (h : s.Reordered s') : s.keys = s'.keys := by
  have hline : IsLine s.heading (.header s'.path) := h.1 ▸ s'.isLine
  have hpath : [Statement.header s.path] = [.header s'.path] := Script.unique s.isLine hline
  rw [keys, keys, Statement.header.inj (List.cons.inj hpath).1]

theorem Reordered.effects_perm {s s' : Section} (h : s.Reordered s') :
    s.effects.Perm s'.effects := by
  rw [effects, effects, assignments, assignments, h.keys_eq]
  exact ((h.2.map _).map _).cons _

end Section

/-- A document of sections. -/
def ofSections (sections : List Section) (ending : Bytes) : Bytes :=
  ofLines ((sections.flatMap Section.lines).map Prod.fst) ending

/-- The same sections in some order, each with the same lines in some order. -/
def Reordered (a b : List Section) : Prop :=
  ∃ m, a.Perm m ∧ List.Forall₂ Section.Reordered m b

/-- No path is assigned to twice, and no path is used both for a value and for a table. -/
structure Consistent (sections : List Section) : Prop where
  once : ((sections.flatMap Section.assignments).map Prod.fst).Nodup
  apart : ∀ assigned ∈ sections.flatMap Section.assignments, ∀ s ∈ sections,
    ¬assigned.1 <+: s.keys

variable {a b sections : List Section}

theorem script_ofSections (sections : List Section) {ending : Bytes}
    (hending : ending = [] ∨ ending = [Ascii.lf]) :
    Script (afterBlank (ofSections sections ending))
      ((sections.flatMap Section.lines).map Prod.snd) := by
  refine script_lines hending fun line hline => ?_
  obtain ⟨s, -, hline⟩ := List.mem_flatMap.mp hline
  rcases List.mem_cons.mp hline with rfl | hline
  · exact s.isLine
  · obtain ⟨e, -, rfl⟩ := List.mem_map.mp hline
    exact e.isLine

theorem effects_entries (base : List Bytes) (entries : List Entry) (sts : List Statement) :
    effects base (entries.map (fun e => .assign e.key e.value) ++ sts) =
      entries.map (fun e => .assigns (base ++ [e.key]) e.value) ++ effects base sts := by
  induction entries with
  | nil => rfl
  | cons e entries ih => exact congrArg (_ :: ·) ih

/-- **What sections do** does not hang on what stands before them. -/
theorem effects_sections (base : List Bytes) (sections : List Section) :
    effects base ((sections.flatMap Section.lines).map Prod.snd) =
      sections.flatMap Section.effects := by
  induction sections generalizing base with
  | nil => rfl
  | cons s sections ih =>
      rw [List.flatMap_cons, List.flatMap_cons, List.map_append, ← ih s.keys]
      simp only [Section.lines, Section.effects, Section.assignments, List.map_cons, List.map_map,
        List.cons_append]
      exact congrArg (_ :: ·) (effects_entries s.keys s.entries _)

theorem mem_effects_sections_iff {e : Effect} :
    e ∈ sections.flatMap Section.effects ↔ (∃ s ∈ sections, e = .opens s.keys) ∨
      ∃ assigned ∈ sections.flatMap Section.assignments, e = .assigns assigned.1 assigned.2 := by
  simp only [List.mem_flatMap, Section.effects, List.mem_cons, List.mem_map]
  constructor
  · rintro ⟨s, hs, rfl | ⟨assigned, ha, rfl⟩⟩
    · exact Or.inl ⟨s, hs, rfl⟩
    · exact Or.inr ⟨assigned, ⟨s, hs, ha⟩, rfl⟩
  · rintro (⟨s, hs, rfl⟩ | ⟨assigned, ⟨s, hs, ha⟩, rfl⟩)
    · exact ⟨s, hs, Or.inl rfl⟩
    · exact ⟨s, hs, Or.inr ⟨assigned, ha, rfl⟩⟩

/-- Of two assigned paths none leads to the other: it would lead to the section of the other. -/
theorem Consistent.eq_of_prefix (h : Consistent sections) {assigned assigned' : List Bytes × Node}
    (ha : assigned ∈ sections.flatMap Section.assignments)
    (ha' : assigned' ∈ sections.flatMap Section.assignments)
    (hleads : assigned.1 <+: assigned'.1) : assigned = assigned' := by
  obtain ⟨s, hs, he⟩ := List.mem_flatMap.mp ha'
  obtain ⟨e, -, rfl⟩ := List.mem_map.mp he
  rcases List.prefix_concat_iff.mp hleads with heq | hkeys
  · exact List.inj_on_of_nodup_map h.once ha ha' heq
  · exact absurd hkeys (h.apart assigned ha s hs)

/-- **The effects of consistent sections** are apart. -/
theorem Consistent.apart_effects (h : Consistent sections) {e e' : Effect}
    (he : e ∈ sections.flatMap Section.effects) (he' : e' ∈ sections.flatMap Section.effects) :
    e = e' ∨ e.Apart e' := by
  rcases mem_effects_sections_iff.mp he with ⟨s, hs, rfl⟩ | ⟨assigned, ha, rfl⟩
  · rcases mem_effects_sections_iff.mp he' with ⟨s', hs', rfl⟩ | ⟨assigned', ha', rfl⟩
    · exact Or.inr trivial
    · exact Or.inr (h.apart assigned' ha' s hs)
  · rcases mem_effects_sections_iff.mp he' with ⟨s', hs', rfl⟩ | ⟨assigned', ha', rfl⟩
    · exact Or.inr (h.apart assigned ha s' hs')
    · by_cases heq : assigned = assigned'
      · exact Or.inl (heq ▸ rfl)
      · exact Or.inr ⟨fun hp => heq (h.eq_of_prefix ha ha' hp),
          fun hp => heq (h.eq_of_prefix ha' ha hp).symm⟩

theorem Effect.Apart.not_blocks {e e' : Effect} (h : e.Apart e') : ¬e.Blocks e' := by
  cases e <;> cases e'
  · exact id
  · exact id
  · exact h
  · exact id

/-- No assignment in consistent sections blocks any of them. -/
theorem Consistent.not_blocks (h : Consistent sections) {e e' : Effect}
    (he : e ∈ sections.flatMap Section.effects) (he' : e' ∈ sections.flatMap Section.effects) :
    ¬e.Blocks e' := by
  rcases h.apart_effects he he' with rfl | hapart
  · exact e.not_blocks_self
  · exact hapart.not_blocks

theorem Reordered.effects_perm (h : Reordered a b) :
    (a.flatMap Section.effects).Perm (b.flatMap Section.effects) := by
  obtain ⟨m, hperm, hsections⟩ := h
  refine (hperm.flatMap_right _).trans ?_
  clear hperm
  induction hsections with
  | nil => exact .refl _
  | cons hs _ ih => exact hs.effects_perm.append ih

/-- **The order of sections does not matter**, nor does that of the lines in each of them: if no
path is assigned to twice, and none is used both for a value and for a table, then a document is
accepted, and denotes the same table, in every order. -/
theorem parse_reordered {ending : Bytes} (hending : ending = [] ∨ ending = [Ascii.lf])
    (hab : Reordered a b) (h : Consistent a) :
    ∃ t, parse (ofSections a ending) = .ok t ∧ parse (ofSections b ending) = .ok t := by
  have hperm := hab.effects_perm
  have hscript := script_ofSections a hending
  have hscript' := script_ofSections b hending
  have hpairs : (a.flatMap Section.effects).Pairwise fun e e' => ¬e.Blocks e' :=
    List.pairwise_of_forall_mem_list fun e he e' he' => h.not_blocks he he'
  have hpairs' : (b.flatMap Section.effects).Pairwise fun e e' => ¬e.Blocks e' :=
    List.pairwise_of_forall_mem_list fun e he e' he' =>
      h.not_blocks (hperm.mem_iff.mpr he) (hperm.mem_iff.mpr he')
  rw [← effects_sections []] at hpairs hpairs'
  obtain ⟨t, ht⟩ := (exists_parse_iff hscript).mpr hpairs
  obtain ⟨hordered, hheld⟩ := held_of_parse hscript ht
  refine ⟨t, ht, (parse_eq_ok_iff_of_script hscript').mpr ⟨hpairs', hordered, fun q => ?_⟩⟩
  rw [hheld, effects_sections, effects_sections]
  exact heldAfter_perm hperm (fun e he e' he' => h.apart_effects he he') q

/-- An assignment of a value to a bare key, given by the text of the value. -/
def Entry.ofText (key text : Bytes) (value : Node) (hkey : IsBareKey key)
    (hvalue : value? text = some (value, [])) : Entry :=
  ⟨key ++ ascii " = " ++ text, key, value, isLine_assignment hkey hvalue⟩

/-- A section whose header has bare keys in it. -/
def Section.ofPath (path : Bytes) (hpath : path ≠ [] ∧ path.all isPathByte = true)
    (entries : List Entry) : Section :=
  ⟨Ascii.openBracket :: path ++ [Ascii.closeBracket], path, entries,
    isLine_header hpath.1 hpath.2⟩

/-- Assigns a number. -/
def numberEntry : Entry :=
  .ofText (ascii "x") (ascii "1") (.integer 1) (by decide) (value?_cons _ _)

/-- Assigns a text. -/
def textEntry : Entry :=
  .ofText (ascii "y") (ascii "\"two\"") (.string (ascii "two")) (by decide) (value?_cons _ _)

theorem value?_arrayText : value? (ascii "[-3]") = some (.array [.integer (-3)], []) := by
  have hitem : value? (ascii "-3]") = some (.integer (-3), [Ascii.closeBracket]) := value?_cons _ _
  have hitems : items? (ascii "-3]") = some ([.integer (-3)], []) :=
    items?_of_item (b := Ascii.minus) (by decide) hitem
  exact (value?_cons Ascii.openBracket (ascii "-3]")).trans (congrArg (Option.map _) hitems)

/-- Assigns an array. -/
def arrayEntry : Entry :=
  .ofText (ascii "z") (ascii "[-3]") (.array [.integer (-3)]) (by decide) value?_arrayText

/-- A section of two entries, above a nested one. -/
def outerSection (entries : List Entry) : Section := .ofPath (ascii "a") (by decide) entries

/-- A section nested in it. -/
def innerSection (entries : List Entry) : Section := .ofPath (ascii "a.b") (by decide) entries

/-- The nested section comes first, and is opened again at the end. -/
def nestedFirst : List Section :=
  [innerSection [numberEntry], outerSection [textEntry, arrayEntry], innerSection [textEntry]]

/-- The outer section comes first, with its entries the other way round. -/
def outerFirst : List Section :=
  [outerSection [arrayEntry, textEntry], innerSection [textEntry], innerSection [numberEntry]]

/-- The text of the first document. -/
def nestedFirstText : Bytes :=
  ascii "[a.b]\nx = 1\n[a]\ny = \"two\"\nz = [-3]\n[a.b]\ny = \"two\"\n"

/-- The text of the second document. -/
def outerFirstText : Bytes :=
  ascii "[a]\nz = [-3]\ny = \"two\"\n[a.b]\ny = \"two\"\n[a.b]\nx = 1\n"

/-- The table that both denote. -/
def nestedTable : Table :=
  [(ascii "a", .table
    [(ascii "b", .table [(ascii "x", .integer 1), (ascii "y", .string (ascii "two"))]),
      (ascii "y", .string (ascii "two")), (ascii "z", .array [.integer (-3)])])]

theorem parse_reordered_nestedFirst :
    nestedFirstText = ofSections nestedFirst [Ascii.lf] ∧
      outerFirstText = ofSections outerFirst [Ascii.lf] ∧ Reordered nestedFirst outerFirst ∧
      Consistent nestedFirst ∧
      parse nestedFirstText = .ok nestedTable ∧ parse outerFirstText = .ok nestedTable := by
  have hnested : nestedFirstText = ofSections nestedFirst [Ascii.lf] := by decide +kernel
  have houter : outerFirstText = ofSections outerFirst [Ascii.lf] := by decide +kernel
  have hreordered : Reordered nestedFirst outerFirst :=
    ⟨_, (List.perm_append_singleton _ _).symm,
      .cons ⟨rfl, .swap _ _ _⟩ (.cons ⟨rfl, .refl _⟩ (.cons ⟨rfl, .refl _⟩ .nil))⟩
  have hconsistent : Consistent nestedFirst := ⟨by decide +kernel, by decide +kernel⟩
  have htable : parse (ofSections nestedFirst [Ascii.lf]) = .ok nestedTable :=
    parse_eq_ok_iff.mpr ⟨_, ⟨[ascii "a", ascii "b"], nestedTable⟩,
      script_ofSections nestedFirst (Or.inr rfl), rfl, rfl⟩
  obtain ⟨t, hfirst, hsecond⟩ := parse_reordered (Or.inr rfl) hreordered hconsistent
  cases htable.symm.trans hfirst
  rw [hnested, houter]
  exact ⟨rfl, rfl, hreordered, hconsistent, hfirst, hsecond⟩

end Toml

end DoctypeProbe
