import DoctypeProbe.Proofs.Path

/-!
# The Normal Form of a Path

A path in normal form leads to its goal without a detour: it steps up first, if at all, and then
goes down by names, with one slash between every two of them. There are no steps up below a root. A
slash may stand behind the last name, but not behind a step up. A root on its own is in normal form
as it is written, and so are the empty path and the dot.

Normalising pushes the names of a path on a stack one after the other. What is on the stack is
direct at every time, which gives the normal form its shape; and direct names are pushed without
any of them going away again, so that a path in normal form is kept.

The normal form depends on few things: how the root is written, the names, and whether the path
ends in a way that marks a directory. How many slashes stand between two names plays no part.

## Main results

* `Path.isNormal_normal`: the shape of a normal form.
* `Path.isNormal_iff`: the paths in normal form are those that normalising keeps.
* `Path.normal_congr`: what the normal form of a path depends on.
-/

namespace DoctypeProbe

namespace Path

/-! ### The names in a text -/

/-- The names in a text. They are those of every path that goes on with this text below its
root. -/
def namesIn (t : Bytes) : List Bytes := names { tail := t }

theorem names_eq_namesIn (p : Path) : p.names = namesIn p.tail := rfl

theorem names_ofText_eq (t : Bytes) : (ofText t).names = namesIn t := names_ofText t

/-- The names on both sides of what leads to the second. -/
theorem namesIn_append {front : Bytes} (h : Leads front) (t : Bytes) :
    namesIn (front ++ t) = namesIn front ++ namesIn t := by
  rcases h with rfl | ⟨s, rfl⟩
  · rfl
  · have hfields := Bytes.fields_append_separator s t Ascii.slash
    rw [namesIn, names, List.append_assoc, List.singleton_append, hfields, List.filter_append]
    rfl

/-- A text without slashes is one name. -/
theorem namesIn_of_not_mem {name : Bytes} (h : Ascii.slash ∉ name) (hne : name ≠ []) :
    namesIn name = [name] := by
  rw [namesIn, names, Bytes.fields_of_not_mem h hne, List.filter_singleton,
    List.isEmpty_eq_false_iff.mpr hne]
  rfl

/-- Slashes at the end add no names. -/
theorem namesIn_append_slash (t : Bytes) : namesIn (t ++ [Ascii.slash]) = namesIn t := by
  obtain ⟨front, ht, hfront, hname⟩ := exists_eq_append_fileName t
  generalize (ofText t).fileName = name at ht hname
  subst ht
  rw [List.append_assoc, namesIn_append hfront, namesIn_append hfront]
  congr 1
  by_cases hne : name = []
  · subst hne
    rfl
  · rw [namesIn_of_not_mem hname hne, namesIn, names, Bytes.fields_append hname,
      Bytes.fields, List.filter_singleton, List.isEmpty_eq_false_iff.mpr hne]
    rfl

theorem namesIn_trimSlashes (t : Bytes) : namesIn (trimSlashes t) = namesIn t := by
  have htrim : ∀ s, trimSlashes s = s.rdropWhile (· == Ascii.slash) := fun _ => rfl
  induction t using List.reverseRecOn with
  | nil => rfl
  | append_singleton t b ih =>
      by_cases hb : b = Ascii.slash
      · subst hb
        rw [htrim, List.rdropWhile_concat_pos _ _ _ (by decide), ← htrim, ih,
          namesIn_append_slash]
      · rw [htrim, List.rdropWhile_concat_neg _ _ _ (by simpa using hb)]

/-- Slashes in front add no names. -/
theorem namesIn_replicate_append (n : Nat) (t : Bytes) :
    namesIn (List.replicate n Ascii.slash ++ t) = namesIn t := by
  induction n with
  | zero => rfl
  | succ n ih =>
      rw [List.replicate_succ, List.cons_append, namesIn, names, Bytes.fields, if_pos rfl]
      exact ih

theorem of_mem_namesIn {t name : Bytes} (h : name ∈ namesIn t) :
    name ≠ [] ∧ Ascii.slash ∉ name := by
  obtain ⟨hfield, hne⟩ := List.mem_filter.mp h
  rw [Bool.not_eq_true', List.isEmpty_eq_false_iff] at hne
  exact ⟨hne, Bytes.not_mem_of_mem_fields hfield⟩

/-! ### How a text ends -/

theorem leads_append {front t : Bytes} (hfront : Leads front) (ht : Leads t) :
    Leads (front ++ t) := by
  rcases ht with rfl | ⟨s, rfl⟩
  · rwa [List.append_nil]
  · exact .inr ⟨front ++ s, (List.append_assoc ..).symm⟩

/-- What leads to a name is cut off from it at the last slash. -/
theorem cut_of_leads {front name : Bytes} (hfront : Leads front) (hname : Ascii.slash ∉ name) :
    (front ++ name).rtakeWhile (· != Ascii.slash) = name ∧
      (front ++ name).rdropWhile (· != Ascii.slash) = front := by
  have hall : ∀ b ∈ name.reverse, (b != Ascii.slash) = true := by
    intro b hb
    exact bne_iff_ne.mpr fun heq => hname (heq ▸ List.mem_reverse.mp hb)
  rw [List.rtakeWhile, List.rdropWhile, List.reverse_append,
    List.takeWhile_append_of_pos hall, List.dropWhile_append_of_pos hall]
  rcases hfront with rfl | ⟨s, rfl⟩
  · simp
  · simp

/-- The last name of a path does not depend on what leads to it. -/
theorem fileName_append {front : Bytes} (hfront : Leads front) (root : Nat) (t : Bytes) :
    fileName { root, tail := front ++ t } = fileName { tail := t } := by
  obtain ⟨front', ht, hfront', hname⟩ := exists_eq_append_fileName t
  generalize (ofText t).fileName = name at ht hname
  subst ht
  have hleft : fileName { root, tail := front ++ (front' ++ name) } = name := by
    rw [← List.append_assoc]
    exact (cut_of_leads (leads_append hfront hfront') hname).1
  exact hleft.trans (cut_of_leads hfront' hname).1.symm

/-- Whether a path ends in a slash shows below the root, if it goes on there. -/
theorem endsInSlash_of_ne_nil {p : Path} (h : p.tail ≠ []) :
    p.endsInSlash = (p.tail.getLast? == some Ascii.slash) := by
  rw [endsInSlash, text, List.getLast?_append_of_ne_nil _ h]

/-- Whether a path marks a directory does not depend on what leads to its end. -/
theorem marksDirectory_append {front t : Bytes} (hfront : Leads front) (ht : t ≠ []) (root : Nat) :
    marksDirectory { root, tail := front ++ t } = marksDirectory { tail := t } := by
  have hne : front ++ t ≠ [] := List.append_ne_nil_of_right_ne_nil _ ht
  rw [marksDirectory, marksDirectory, fileName_append hfront, endsInSlash_of_ne_nil hne,
    endsInSlash_of_ne_nil ht, List.getLast?_append_of_ne_nil _ ht]

/-! ### Direct names -/

/-- A name of an entry in a directory: it can stand between slashes, and it is no dot name. -/
structure IsName (name : Bytes) : Prop where
  /-- A name is not empty. -/
  ne_nil : name ≠ []
  /-- There are no slashes in a name. -/
  slash_not_mem : Ascii.slash ∉ name
  /-- The name of the directory itself is not one of an entry. -/
  ne_here : name ≠ here
  /-- Neither is that of the directory above. -/
  ne_above : name ≠ above

/-- Names that lead to a goal without a detour: steps up, and then names of entries. There are no
steps up from a root. -/
def IsDirect (absolute : Bool) (names : List Bytes) : Prop :=
  ∃ ups below, names = List.replicate ups above ++ below ∧ (∀ name ∈ below, IsName name) ∧
    (absolute = true → ups = 0)

theorem IsDirect.separable {absolute : Bool} {names : List Bytes} (h : IsDirect absolute names) :
    ∀ name ∈ names, name ≠ [] ∧ Ascii.slash ∉ name := by
  obtain ⟨ups, below, rfl, hbelow, -⟩ := h
  intro name hmem
  rcases List.mem_append.mp hmem with hup | hbelow'
  · rw [List.eq_of_mem_replicate hup]
    decide
  · exact ⟨(hbelow name hbelow').ne_nil, (hbelow name hbelow').slash_not_mem⟩

/-- The last of direct names is a step up or the name of an entry. -/
theorem IsDirect.last {absolute : Bool} {names : List Bytes} {name : Bytes}
    (h : IsDirect absolute (names ++ [name])) : name = above ∨ IsName name := by
  obtain ⟨ups, below, hnames, hbelow, -⟩ := h
  rcases List.eq_nil_or_concat' below with rfl | ⟨below, last, rfl⟩
  · rw [List.append_nil] at hnames
    refine .inl (List.eq_of_mem_replicate (n := ups) ?_)
    rw [← hnames]
    exact List.mem_concat_self
  · rw [← List.append_assoc] at hnames
    obtain ⟨-, rfl⟩ := List.append_singleton_inj.mp hnames
    exact .inr (hbelow name List.mem_concat_self)

/-! ### The stack of names -/

section

variable (absolute : Bool) (reversed : List Bytes)

theorem push_here : push absolute reversed here = reversed := if_pos rfl

theorem push_of_isName {name : Bytes} (h : IsName name) :
    push absolute reversed name = name :: reversed := by
  unfold push
  rw [if_neg h.ne_here, if_neg h.ne_above]

/-- A step up goes on the stack if there are nothing but steps up, and no root below them. -/
theorem push_above_replicate (ups : Nat) :
    push false (List.replicate ups above) above = List.replicate (ups + 1) above := by
  cases ups <;> rfl

/-- A step up takes the name of an entry away. -/
theorem push_above_of_isName {name : Bytes} (h : IsName name) :
    push absolute (name :: reversed) above = reversed := by
  unfold push
  rw [if_neg (by decide), if_pos rfl]
  exact if_neg h.ne_above

end

/-- **Pushing a name** keeps a stack direct. -/
theorem isDirect_push {absolute : Bool} {reversed : List Bytes} {name : Bytes}
    (h : IsDirect absolute reversed.reverse) (hne : name ≠ []) (hslash : Ascii.slash ∉ name) :
    IsDirect absolute (push absolute reversed name).reverse := by
  by_cases hhere : name = here
  · rw [hhere, push_here]
    exact h
  obtain ⟨ups, below, hreversed, hbelow, hups⟩ := h
  obtain rfl : reversed = below.reverse ++ List.replicate ups above := by
    rw [← List.reverse_reverse reversed, hreversed, List.reverse_append, List.reverse_replicate]
  by_cases habove : name = above
  · rw [habove]
    rcases List.eq_nil_or_concat' below with rfl | ⟨below, top, rfl⟩
    · rw [List.reverse_nil, List.nil_append]
      cases absolute with
      | true =>
          rw [hups rfl]
          exact ⟨0, [], rfl, nofun, fun _ => rfl⟩
      | false =>
          rw [push_above_replicate, List.reverse_replicate]
          exact ⟨ups + 1, [], (List.append_nil _).symm, nofun, nofun⟩
    · -- the last name goes away
      have htop := hbelow top List.mem_concat_self
      rw [List.reverse_append, List.reverse_singleton, List.append_assoc, List.singleton_append,
        push_above_of_isName _ _ htop, List.reverse_append, List.reverse_reverse,
        List.reverse_replicate]
      exact ⟨ups, below, rfl, fun name hname => hbelow name (List.mem_append_left _ hname), hups⟩
  · have hname : IsName name := ⟨hne, hslash, hhere, habove⟩
    rw [push_of_isName _ _ hname, List.reverse_cons, List.reverse_append, List.reverse_reverse,
      List.reverse_replicate, List.append_assoc]
    refine ⟨ups, below ++ [name], rfl, fun other hother => ?_, hups⟩
    rcases List.mem_append.mp hother with hother | hother
    · exact hbelow other hother
    · rw [List.mem_singleton.mp hother]
      exact hname

/-- Names of entries stay on the stack that they are pushed on. -/
theorem foldl_push_of_isName {names : List Bytes} (h : ∀ name ∈ names, IsName name)
    (absolute : Bool) (reversed : List Bytes) :
    names.foldl (push absolute) reversed = names.reverse ++ reversed := by
  induction names generalizing reversed with
  | nil => rfl
  | cons name names ih =>
      obtain ⟨hname, hnames⟩ := List.forall_mem_cons.mp h
      rw [List.foldl_cons, push_of_isName _ _ hname, ih hnames, List.reverse_cons,
        List.append_assoc, List.singleton_append]

/-- Steps up stay on the stack if there is no root below them. -/
theorem foldl_push_replicate (ups n : Nat) :
    (List.replicate ups above).foldl (push false) (List.replicate n above) =
      List.replicate (ups + n) above := by
  induction ups generalizing n with
  | zero => rw [Nat.zero_add, List.replicate_zero, List.foldl_nil]
  | succ ups ih =>
      rw [List.replicate_succ, List.foldl_cons, push_above_replicate, ih, Nat.add_right_comm,
        Nat.add_assoc]

/-- **Direct names** are pushed without any of them going away again. -/
theorem foldl_push_of_isDirect {absolute : Bool} {names : List Bytes}
    (h : IsDirect absolute names) :
    names.foldl (push absolute) [] = names.reverse := by
  obtain ⟨ups, below, rfl, hbelow, hups⟩ := h
  have hfront : (List.replicate ups above).foldl (push absolute) [] =
      List.replicate ups above := by
    cases absolute with
    | true =>
        rw [hups rfl]
        rfl
    | false => exact foldl_push_replicate ups 0
  rw [List.foldl_append, hfront, foldl_push_of_isName hbelow, List.reverse_append,
    List.reverse_replicate]

/-! ### What normalising keeps -/

/-- The names that normalising keeps, in order. -/
def keptNames (p : Path) : List Bytes := (p.names.foldl (push p.isAbsolute) []).reverse

/-- **The names that normalising keeps** are direct. -/
theorem isDirect_keptNames (p : Path) : IsDirect p.isAbsolute p.keptNames := by
  have hrun : ∀ names : List Bytes, (∀ name ∈ names, name ≠ [] ∧ Ascii.slash ∉ name) →
      ∀ reversed : List Bytes, IsDirect p.isAbsolute reversed.reverse →
        IsDirect p.isAbsolute (names.foldl (push p.isAbsolute) reversed).reverse := by
    intro names hnames
    induction names with
    | nil => exact fun _ h => h
    | cons name names ih =>
        obtain ⟨hname, hnames⟩ := List.forall_mem_cons.mp hnames
        exact fun _ h => ih hnames _ (isDirect_push h hname.1 hname.2)
  exact hrun _ (fun _ => of_mem_namesIn) [] ⟨0, [], rfl, nofun, fun _ => rfl⟩

theorem normal_of_keptNames_eq_nil {p : Path} (h : p.keptNames = []) :
    p.normal = if p.isAbsolute || p.isEmpty then { p with tail := [] } else { tail := here } := by
  rw [keptNames, List.reverse_eq_nil_iff] at h
  rw [normal, h]

theorem normal_of_keptNames_eq_append {p : Path} {names : List Bytes} {name : Bytes}
    (h : p.keptNames = names ++ [name]) :
    p.normal = { p with
      tail := ofNames (names ++ [name]) ++
        if p.marksDirectory && name != above then [Ascii.slash] else [] } := by
  have hfold : p.names.foldl (push p.isAbsolute) [] = name :: names.reverse := by
    rw [← List.reverse_reverse (List.foldl ..), ← keptNames, h, List.reverse_append]
    rfl
  rw [normal, hfold]
  simp only [List.reverse_cons, List.reverse_reverse]
  cases p.marksDirectory && name != above <;> simp

/-- A path and its normal form have the same root. -/
theorem root_normal (p : Path) : p.normal.root = p.root := by
  rcases List.eq_nil_or_concat' p.keptNames with h | ⟨names, name, h⟩
  · rw [normal_of_keptNames_eq_nil h]
    split
    · rfl
    · rename_i hnot
      rw [Bool.or_eq_true, not_or, isAbsolute, bne_iff_ne, not_not] at hnot
      exact hnot.1.symm
  · rw [normal_of_keptNames_eq_append h]

/-! ### Paths in normal form -/

/-- A path is in normal form.

* `bare`: a root on its own, as it is written, and the empty path.
* `here`: the directory that relative paths are seen from.
* `direct`: direct names, with a slash between every two of them.
* `marked`: the same with a slash behind the last name, which is no step up. -/
inductive IsNormal : Path → Prop
  | bare (root : Nat) : IsNormal { root }
  | here : IsNormal { tail := here }
  | direct {root : Nat} {names : List Bytes} {name : Bytes} :
      IsDirect (root != 0) (names ++ [name]) →
      IsNormal { root, tail := ofNames (names ++ [name]) }
  | marked {root : Nat} {names : List Bytes} {name : Bytes} :
      IsDirect (root != 0) (names ++ [name]) → name ≠ above →
      IsNormal { root, tail := ofNames (names ++ [name]) ++ [Ascii.slash] }

/-- **The shape of a normal form.** -/
theorem isNormal_normal (p : Path) : p.normal.IsNormal := by
  have hdirect := isDirect_keptNames p
  rcases List.eq_nil_or_concat' p.keptNames with h | ⟨names, name, h⟩
  · rw [normal_of_keptNames_eq_nil h]
    split
    · exact .bare p.root
    · exact .here
  · rw [h] at hdirect
    rw [normal_of_keptNames_eq_append h]
    split
    · rename_i hmarked
      rw [Bool.and_eq_true, bne_iff_ne] at hmarked
      exact .marked hdirect hmarked.2
    · rw [List.append_nil]
      exact .direct hdirect

theorem ofNames_cons {names : List Bytes} (h : names ≠ []) (name : Bytes) :
    ofNames (name :: names) = name ++ Ascii.slash :: ofNames names := by
  cases names with
  | nil => exact absurd rfl h
  | cons next names => rfl

/-- The names of names put together. -/
theorem namesIn_ofNames {names : List Bytes}
    (h : ∀ name ∈ names, name ≠ [] ∧ Ascii.slash ∉ name) : namesIn (ofNames names) = names := by
  induction names with
  | nil => rfl
  | cons name names ih =>
      obtain ⟨⟨hne, hslash⟩, hnames⟩ := List.forall_mem_cons.mp h
      by_cases hnil : names = []
      · subst hnil
        exact namesIn_of_not_mem hslash hne
      · have hlead : Leads (name ++ [Ascii.slash]) := .inr ⟨name, rfl⟩
        rw [ofNames_cons hnil, ← List.singleton_append, ← List.append_assoc,
          namesIn_append hlead, namesIn_append_slash, namesIn_of_not_mem hslash hne, ih hnames]
        rfl

/-- Names put together are the last of them and what leads to it. -/
theorem exists_ofNames_eq (names : List Bytes) (name : Bytes) :
    ∃ front, Leads front ∧ ofNames (names ++ [name]) = front ++ name := by
  induction names with
  | nil => exact ⟨[], .inl rfl, rfl⟩
  | cons first names ih =>
      obtain ⟨front, hfront, hnames⟩ := ih
      have hlead : Leads (first ++ [Ascii.slash]) := .inr ⟨first, rfl⟩
      have hcons := ofNames_cons (List.append_ne_nil_of_right_ne_nil names
        (List.cons_ne_nil name [])) first
      refine ⟨first ++ [Ascii.slash] ++ front, leads_append hlead hfront, ?_⟩
      rw [List.cons_append, hcons, hnames, List.append_assoc, List.append_assoc]
      rfl

/-- A name of an entry marks no directory. -/
theorem marksDirectory_of_isName {name : Bytes} (h : IsName name) :
    marksDirectory { tail := name } = false := by
  have hcut := cut_of_leads (.inl rfl) h.slash_not_mem
  rw [List.nil_append] at hcut
  have hfile : fileName { tail := name } = name := hcut.1
  have hends : endsInSlash { tail := name } = false := by
    rw [endsInSlash_of_ne_nil h.ne_nil, beq_eq_false_iff_ne]
    exact fun hlast => h.slash_not_mem (List.mem_of_getLast? hlast)
  rw [marksDirectory, hends, hfile, decide_eq_false h.ne_here, decide_eq_false h.ne_above]
  rfl

theorem marksDirectory_append_slash (root : Nat) (t : Bytes) :
    marksDirectory { root, tail := t ++ [Ascii.slash] } = true := by
  have hends : endsInSlash { root, tail := t ++ [Ascii.slash] } = true := by
    rw [endsInSlash_of_ne_nil (List.append_ne_nil_of_right_ne_nil _ (List.cons_ne_nil _ _)),
      List.getLast?_concat]
    rfl
  rw [marksDirectory, hends]
  rfl

/-- Normalising keeps the names of a path if they are direct. -/
theorem keptNames_of_isDirect {root : Nat} {t : Bytes}
    (h : IsDirect (root != 0) (namesIn t)) : keptNames { root, tail := t } = namesIn t := by
  rw [keptNames, names_eq_namesIn, isAbsolute, foldl_push_of_isDirect h, List.reverse_reverse]

/-- **A path in normal form** is kept as it is. -/
theorem normal_of_isNormal {p : Path} (h : p.IsNormal) : p.normal = p := by
  cases h with
  | bare root => cases root <;> rfl
  | here => decide
  | @direct root names name hdirect =>
      obtain ⟨front, hfront, htail⟩ := exists_ofNames_eq names name
      have hnames := namesIn_ofNames hdirect.separable
      have hkept := (keptNames_of_isDirect (hnames ▸ hdirect)).trans hnames
      have hmarks : (marksDirectory { root, tail := ofNames (names ++ [name]) } &&
          name != above) = false := by
        rcases hdirect.last with rfl | hname
        · rw [bne_self_eq_false, Bool.and_false]
        · rw [htail, marksDirectory_append hfront hname.ne_nil, marksDirectory_of_isName hname]
          rfl
      rw [normal_of_keptNames_eq_append hkept, hmarks, if_neg Bool.false_ne_true,
        List.append_nil]
  | @marked root names name hdirect hname =>
      have hnames := (namesIn_append_slash _).trans (namesIn_ofNames hdirect.separable)
      have hkept := (keptNames_of_isDirect (hnames ▸ hdirect)).trans hnames
      rw [normal_of_keptNames_eq_append hkept, marksDirectory_append_slash, Bool.true_and,
        if_pos (bne_iff_ne.mpr hname)]

/-- **The paths in normal form** are those that normalising keeps. -/
theorem isNormal_iff {p : Path} : p.IsNormal ↔ p.normal = p :=
  ⟨normal_of_isNormal, fun h => h ▸ isNormal_normal p⟩

/-! ### What the normal form depends on -/

/-- **What the normal form depends on**: the root, the names, and whether the path marks a
directory at its end. -/
theorem normal_congr {p q : Path} (hnames : p.names = q.names)
    (habsolute : p.isAbsolute = q.isAbsolute) (hempty : p.isEmpty = q.isEmpty)
    (hmarks : p.names ≠ [] → p.marksDirectory = q.marksDirectory) :
    p.normal = { root := p.root, tail := q.normal.tail } := by
  have hkept : p.keptNames = q.keptNames := by
    rw [keptNames, keptNames, hnames, habsolute]
  have htail : p.normal.tail = q.normal.tail := by
    rcases List.eq_nil_or_concat' p.keptNames with h | ⟨front, name, h⟩
    · rw [normal_of_keptNames_eq_nil h, normal_of_keptNames_eq_nil (hkept ▸ h), habsolute, hempty]
      split <;> rfl
    · have hne : p.names ≠ [] := by
        intro hnil
        rw [keptNames, hnil] at h
        exact List.append_ne_nil_of_right_ne_nil _ (List.cons_ne_nil _ _) h.symm
      rw [normal_of_keptNames_eq_append h, normal_of_keptNames_eq_append (hkept ▸ h), hmarks hne]
  rw [← htail, ← root_normal p]

end Path

end DoctypeProbe
