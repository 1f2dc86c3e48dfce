import DoctypeProbe.Proofs.Path.Normal

/-!
# Directories and What Is Seen from Them

A path is a directory and a last name in it, and its parent is that directory as a path of its own.
Putting the name back gives the path again, up to slashes: between two names there can be any number
of them, and the parent is read anew from its text. Two paths that name the same directory lead to
the same normal form once something is seen from them (`Path.normal_join_congr`), and the parent of
a path names the directory that the path is in (`Path.sameDirectory_parent`).

How the root is written is the one thing that can get lost. A root of several slashes is kept by
names that are joined to it, but a text that goes on with names behind its slashes has the first of
them for its root. Paths that differ in this alone compare equal (`Path.Alike`). It cannot happen to
a path that is read from a text.

## Main results

* `Path.exists_text_join`: a relative path does not replace the directory that it is seen from.
* `Path.normal_join_congr`: what is seen from the same directory.
* `Path.sameDirectory_parent`: the parent of a path.
* `Path.normal_parent_join_fileName`: a last name is put back below the parent.
-/

namespace DoctypeProbe

namespace Path

/-! ### Paths that compare equal -/

/-- The elements of a path below its root: its names, and an empty one if it ends in a slash behind
them. -/
def elements (p : Path) : List Bytes :=
  p.names ++ if p.names ≠ [] ∧ p.endsInSlash then [[]] else []

/-- Two paths compare equal: both are absolute or none is, and they agree element by element. -/
def Alike (p q : Path) : Prop := p.isAbsolute = q.isAbsolute ∧ p.elements = q.elements

/-- Paths that go on alike compare equal, however their roots are written. -/
theorem alike_of_tail_eq {p q : Path} (habsolute : p.isAbsolute = q.isAbsolute)
    (htail : p.tail = q.tail) : p.Alike q := by
  have hnames : p.names = q.names := by
    rw [names_eq_namesIn, names_eq_namesIn, htail]
  refine ⟨habsolute, ?_⟩
  rw [elements, elements, hnames]
  by_cases hnil : q.names = []
  · simp only [hnil, ne_eq, not_true, false_and]
  · have hne : q.tail ≠ [] := by
      intro h
      rw [names_eq_namesIn, h] at hnil
      exact hnil rfl
    rw [endsInSlash_of_ne_nil hne, endsInSlash_of_ne_nil (htail ▸ hne), htail]

/-! ### Well-formed paths -/

/-- A path without a root does not begin with a slash. -/
def WellFormed (p : Path) : Prop := p.root = 0 → p.tail.head? ≠ some Ascii.slash

theorem wellFormed_ofText (t : Bytes) : (ofText t).WellFormed := by
  rw [ofText]
  split
  · intro _ hhead
    cases hhead
  · split
    · intro hroot
      cases hroot
    · rename_i hhead
      exact fun _ => hhead

theorem WellFormed.join {p q : Path} (hp : p.WellFormed) (hq : q.WellFormed) :
    (p.join q).WellFormed := by
  rw [Path.join]
  split
  · exact hq
  · rename_i hnot
    have hhead : ∀ t : Bytes, p.root = 0 → (p.tail ++ t).head? ≠ some Ascii.slash := by
      intro t hroot
      have hne : p.tail ≠ [] := by
        rintro hnil
        rw [Bool.or_eq_true, not_or, isEmpty, hroot, hnil] at hnot
        exact hnot.2 rfl
      rw [List.head?_append_of_ne_nil _ hne]
      exact hp hroot
    split
    · exact hhead _
    · exact hhead _

theorem head?_ofNames_append {absolute : Bool} {names : List Bytes} {name : Bytes}
    (h : IsDirect absolute (names ++ [name])) (t : Bytes) :
    (ofNames (names ++ [name]) ++ t).head? ≠ some Ascii.slash := by
  cases names with
  | nil =>
      obtain ⟨hne, hslash⟩ := h.separable name List.mem_concat_self
      rw [List.nil_append, ofNames, List.head?_append_of_ne_nil _ hne]
      exact fun hhead => hslash (List.mem_of_head? hhead)
  | cons first names =>
      obtain ⟨hne, hslash⟩ := h.separable first List.mem_cons_self
      rw [List.cons_append, ofNames_cons (by simp), List.append_assoc,
        List.head?_append_of_ne_nil _ hne]
      exact fun hhead => hslash (List.mem_of_head? hhead)

/-- **A path in normal form** is well-formed. -/
theorem IsNormal.wellFormed {p : Path} (h : p.IsNormal) : p.WellFormed := by
  intro _
  cases h with
  | bare => exact nofun
  | here => decide
  | direct hdirect => exact List.append_nil (ofNames _) ▸ head?_ofNames_append hdirect []
  | marked hdirect => exact head?_ofNames_append hdirect [Ascii.slash]

/-! ### What is seen from a directory -/

/-- A path that is joined to another one goes on behind it, with a slash in between if need be. -/
theorem exists_join_eq {p q : Path} (hp : p.isEmpty = false) (hq : q.isAbsolute = false) :
    ∃ sep, (sep = [] ∨ sep = [Ascii.slash]) ∧ (p.tail = [] → sep = []) ∧
      Leads (p.tail ++ sep) ∧
      p.join q = { root := p.root, tail := p.tail ++ sep ++ q.tail } := by
  rw [join, hp, hq, Bool.or_false, if_neg Bool.false_ne_true]
  by_cases hends : (p.tail.isEmpty || p.endsInSlash) = true
  · refine ⟨[], .inl rfl, fun _ => rfl, ?_, by rw [if_pos hends, List.append_nil]⟩
    rw [List.append_nil]
    by_cases hnil : p.tail = []
    · exact .inl hnil
    · rw [List.isEmpty_eq_false_iff.mpr hnil, Bool.false_or, endsInSlash_of_ne_nil hnil,
        beq_iff_eq] at hends
      obtain ⟨s, hs⟩ := List.getLast?_eq_some_iff.mp hends
      exact .inr ⟨s, hs⟩
  · refine ⟨[Ascii.slash], .inr rfl, fun hnil => ?_, .inr ⟨_, rfl⟩, ?_⟩
    · rw [hnil] at hends
      exact absurd rfl hends
    · rw [if_neg hends, List.append_assoc, List.singleton_append]

theorem join_of_isEmpty {p : Path} (h : p.isEmpty = true) (q : Path) : p.join q = q := by
  rw [join, h, Bool.or_true, if_pos rfl]

/-- **A relative path does not replace** the directory that it is seen from: the text of the
directory stands before it. -/
theorem exists_text_join {p q : Path} (hq : q.isAbsolute = false) :
    ∃ sep, (sep = [] ∨ sep = [Ascii.slash]) ∧ (p.join q).text = p.text ++ (sep ++ q.text) := by
  cases hp : p.isEmpty with
  | true =>
      refine ⟨[], .inl rfl, ?_⟩
      rw [isEmpty, Bool.and_eq_true, beq_iff_eq, List.isEmpty_iff] at hp
      rw [join_of_isEmpty (by rw [isEmpty, hp.1, hp.2]; rfl), text, text, hp.1, hp.2]
      rfl
  | false =>
      obtain ⟨sep, hsep, -, -, hjoin⟩ := exists_join_eq hp hq
      have hroot : q.root = 0 := by
        rwa [isAbsolute, bne_eq_false_iff_eq] at hq
      refine ⟨sep, hsep, ?_⟩
      rw [hjoin, text, text, text, hroot]
      simp only [List.replicate_zero, List.nil_append, List.append_assoc]

theorem root_join {p q : Path} (hq : q.isAbsolute = false) : (p.join q).root = p.root := by
  cases hp : p.isEmpty with
  | true =>
      rw [join_of_isEmpty hp]
      rw [isEmpty, Bool.and_eq_true, beq_iff_eq] at hp
      rw [isAbsolute, bne_eq_false_iff_eq] at hq
      rw [hp.1, hq]
  | false =>
      obtain ⟨sep, -, -, -, hjoin⟩ := exists_join_eq hp hq
      rw [hjoin]

/-- Two paths name the same directory, however many slashes stand in them. -/
structure SameDirectory (p q : Path) : Prop where
  /-- Both are empty or none is. -/
  isEmpty : p.isEmpty = q.isEmpty
  /-- Both are absolute or none is. -/
  isAbsolute : p.isAbsolute = q.isAbsolute
  /-- Their names are the same. -/
  names : p.names = q.names

theorem SameDirectory.trans {p q r : Path} (h : SameDirectory p q) (h' : SameDirectory q r) :
    SameDirectory p r :=
  ⟨h.isEmpty.trans h'.isEmpty, h.isAbsolute.trans h'.isAbsolute, h.names.trans h'.names⟩

/-- A separator behind a directory adds nothing. -/
theorem sameDirectory_append {p : Path} (hp : p.isEmpty = false) {sep : Bytes}
    (hsep : sep = [] ∨ sep = [Ascii.slash]) :
    SameDirectory { root := p.root, tail := p.tail ++ sep } p := by
  rcases hsep with rfl | rfl
  · rw [List.append_nil]
    exact ⟨rfl, rfl, rfl⟩
  · refine ⟨?_, rfl, namesIn_append_slash p.tail⟩
    rw [hp, isEmpty, List.isEmpty_eq_false_iff.mpr (by simp), Bool.and_false]

/-- Whether a path marks a directory does not depend on the directory that its end is in. -/
theorem marksDirectory_congr {front front' : Bytes} (hfront : Leads front)
    (hfront' : Leads front') (hnames : namesIn front = namesIn front') (root root' : Nat)
    {t : Bytes} (hne : namesIn (front ++ t) ≠ []) :
    marksDirectory { root, tail := front ++ t } =
      marksDirectory { root := root', tail := front' ++ t } := by
  by_cases ht : t = []
  · -- there are names in both directories, and a slash behind each of them
    subst ht
    rw [List.append_nil] at hne ⊢
    rw [List.append_nil]
    have hends : ∀ (s : Bytes) (n : Nat), Leads s → namesIn s ≠ [] →
        marksDirectory { root := n, tail := s } = true := by
      rintro s n (rfl | ⟨s, rfl⟩) hs
      · exact absurd rfl hs
      · exact marksDirectory_append_slash n s
    rw [hends front root hfront hne, hends front' root' hfront' (hnames ▸ hne)]
  · rw [marksDirectory_append hfront ht, marksDirectory_append hfront' ht]

/-- **What is seen from the same directory** has the same normal form, up to the root. -/
theorem normal_join_congr {p p' q : Path} (h : SameDirectory p p') (hq : q.isAbsolute = false) :
    (p.join q).normal = { root := p.root, tail := (p'.join q).normal.tail } := by
  cases hp : p.isEmpty with
  | true =>
      have hp' : p'.isEmpty = true := h.isEmpty ▸ hp
      have hroot : q.root = p.root := by
        rw [← root_join (p := p) hq, join_of_isEmpty hp]
      rw [join_of_isEmpty hp, join_of_isEmpty hp', ← hroot, ← root_normal q]
  | false =>
      have hp' : p'.isEmpty = false := h.isEmpty ▸ hp
      obtain ⟨sep, hsep, -, hfront, hjoin⟩ := exists_join_eq hp hq
      obtain ⟨sep', hsep', -, hfront', hjoin'⟩ := exists_join_eq hp' hq
      have hnames : namesIn (p.tail ++ sep) = namesIn (p'.tail ++ sep') :=
        ((sameDirectory_append hp hsep).trans h).names.trans
          (sameDirectory_append hp' hsep').names.symm
      have hnonempty : ∀ {r : Path} (t : Bytes), r.isEmpty = false →
          isEmpty { root := r.root, tail := r.tail ++ t } = false := by
        intro r t hr
        rw [isEmpty, Bool.and_eq_false_iff, List.isEmpty_eq_false_iff] at hr
        rw [isEmpty, Bool.and_eq_false_iff, List.isEmpty_eq_false_iff]
        exact hr.imp_right (List.append_ne_nil_of_left_ne_nil · t)
      rw [hjoin, hjoin']
      refine normal_congr ?_ h.isAbsolute ?_ fun hne => ?_
      · rw [names_eq_namesIn, names_eq_namesIn, namesIn_append hfront, namesIn_append hfront',
          hnames]
      · rw [List.append_assoc, List.append_assoc, hnonempty _ hp, hnonempty _ hp']
      · exact marksDirectory_congr hfront hfront' hnames _ _ hne

/-! ### Parents -/

/-- A first byte that is no slash stays when the slashes at the end go. -/
theorem trimSlashes_cons {b : Byte} (hb : b ≠ Ascii.slash) (s : Bytes) :
    trimSlashes (b :: s) = b :: trimSlashes s := by
  have hstop : [b].dropWhile (· == Ascii.slash) = [b] :=
    List.dropWhile_cons_of_neg (by simpa using hb)
  rw [trimSlashes, trimSlashes, List.reverse_cons, List.dropWhile_append, hstop]
  split
  · rename_i hnil
    rw [List.isEmpty_iff.mp hnil]
    rfl
  · rw [List.reverse_append, List.reverse_singleton, List.singleton_append]

/-- The parent of a path is what leads to its last name, read without the slashes at its end. -/
theorem parent_eq {front name : Bytes} (hfront : Leads front) (hname : Ascii.slash ∉ name)
    (root : Nat) :
    parent { root, tail := front ++ name } =
      ofText (List.replicate root Ascii.slash ++ trimSlashes front) := by
  have hcut : ((front ++ name).reverse.dropWhile (· != Ascii.slash)).reverse = front :=
    (cut_of_leads hfront hname).2
  rw [parent, hcut, text]

/-- **The parent of a path** names the directory that the path is in. -/
theorem sameDirectory_parent {root : Nat} {front name : Bytes} (hfront : Leads front)
    (hname : Ascii.slash ∉ name) (h : WellFormed { root, tail := front ++ name }) :
    SameDirectory (parent { root, tail := front ++ name }) { root, tail := front } := by
  have hnames : (parent { root, tail := front ++ name }).names = namesIn front := by
    rw [parent_eq hfront hname, names_ofText_eq, namesIn_replicate_append, namesIn_trimSlashes]
  rw [parent_eq hfront hname] at hnames ⊢
  cases root with
  | succ n =>
      refine ⟨?_, ?_, hnames⟩
      · rw [isEmpty_ofText]
        rfl
      · rw [isAbsolute_ofText]
        rfl
  | zero =>
      rw [List.replicate_zero, List.nil_append] at hnames ⊢
      cases front with
      | nil => exact ⟨rfl, rfl, rfl⟩
      | cons b front =>
          have hb : b ≠ Ascii.slash := fun heq => h rfl (heq ▸ rfl)
          rw [trimSlashes_cons hb] at hnames ⊢
          refine ⟨?_, ?_, hnames⟩
          · rw [isEmpty_ofText]
            rfl
          · rw [isAbsolute_ofText, List.head?_cons]
            exact beq_eq_false_iff_ne.mpr fun heq => hb (Option.some.inj heq)

/-- The root of a parent is that of the path, unless there are several slashes in it and names
before the last one. -/
theorem root_parent {root : Nat} {front name : Bytes} (hfront : Leads front)
    (hname : Ascii.slash ∉ name) (h : WellFormed { root, tail := front ++ name })
    (hroot : root ≤ 1 ∨ front = []) : (parent { root, tail := front ++ name }).root = root := by
  have habsolute : (parent { root, tail := front ++ name }).isAbsolute = (root != 0) :=
    (sameDirectory_parent hfront hname h).isAbsolute
  rw [parent_eq hfront hname] at habsolute ⊢
  rcases hroot with hle | rfl
  · obtain rfl | rfl := Nat.le_one_iff_eq_zero_or_eq_one.mp hle
    · rwa [isAbsolute, bne_self_eq_false, bne_eq_false_iff_eq] at habsolute
    · rw [List.replicate_one, List.singleton_append]
      by_cases hnil : trimSlashes front = []
      · rw [hnil]
        rfl
      · -- the text does not consist of slashes, as its last byte is none
        have hlast : (trimSlashes front).getLast hnil ≠ Ascii.slash := fun heq =>
          List.rdropWhile_last_not (· == Ascii.slash) front hnil (beq_iff_eq.mpr heq)
        have hall : ¬(Ascii.slash :: trimSlashes front).all (· == Ascii.slash) = true :=
          fun hall => hlast (beq_iff_eq.mp
            (List.all_eq_true.mp hall _ (List.mem_cons_of_mem _ (List.getLast_mem hnil))))
        rw [ofText, if_neg hall, List.head?_cons, if_pos rfl]
  · have hall : (List.replicate root Ascii.slash ++ trimSlashes []).all (· == Ascii.slash) =
        true := by
      simp [trimSlashes]
    rw [ofText, if_pos hall]
    simp [trimSlashes]

/-! ### A name below its directory -/

theorem ofText_of_not_mem {name : Bytes} (h : Ascii.slash ∉ name) :
    ofText name = { tail := name } := by
  cases name with
  | nil => rfl
  | cons b name =>
      have hb : b ≠ Ascii.slash := fun heq => h (heq ▸ List.mem_cons_self)
      have hall : ¬(b :: name).all (· == Ascii.slash) = true := by
        simp [hb]
      rw [ofText, if_neg hall, List.head?_cons, if_neg fun heq => hb (Option.some.inj heq)]

/-- A last name that is joined to what leads to it gives the path back as it was. -/
theorem join_of_leads {front name : Bytes} (hfront : Leads front) (hname : Ascii.slash ∉ name)
    (root : Nat) :
    join { root, tail := front } (ofText name) = { root, tail := front ++ name } := by
  have hends : isEmpty { root, tail := front } = true ∧ root = 0 ∧ front = [] ∨
      isEmpty { root, tail := front } = false ∧
        (front.isEmpty || endsInSlash { root, tail := front }) = true := by
    rcases hfront with rfl | ⟨s, rfl⟩
    · cases root with
      | zero => exact .inl ⟨rfl, rfl, rfl⟩
      | succ n => exact .inr ⟨rfl, rfl⟩
    · refine .inr ⟨?_, ?_⟩
      · simp [isEmpty]
      · rw [endsInSlash_of_ne_nil (by simp), List.getLast?_concat]
        simp
  rw [ofText_of_not_mem hname]
  rcases hends with ⟨hempty, rfl, rfl⟩ | ⟨hempty, hends⟩
  · exact join_of_isEmpty hempty _
  · have hrelative : isAbsolute { tail := name } = false := rfl
    rw [join, hempty, hrelative, Bool.or_false, if_neg Bool.false_ne_true, if_pos hends]

/-- A path, the directory that it is in, and its last name. -/
theorem exists_directory {p : Path} (h : p.WellFormed) :
    ∃ front, p = { root := p.root, tail := front ++ p.fileName } ∧ Leads front ∧
      Ascii.slash ∉ p.fileName ∧ SameDirectory p.parent { root := p.root, tail := front } := by
  obtain ⟨front, htail, hfront, hname⟩ := exists_eq_append_fileName p.tail
  have hlast : (ofText p.tail).fileName = p.fileName := fileName_ofText p.tail
  rw [hlast] at htail hname
  have hp : p = { root := p.root, tail := front ++ p.fileName } := by
    rw [← htail]
  have hsame := sameDirectory_parent hfront hname (hp ▸ h)
  rw [← hp] at hsame
  exact ⟨front, hp, hfront, hname, hsame⟩

theorem isAbsolute_parent {p : Path} (h : p.WellFormed) : p.parent.isAbsolute = p.isAbsolute := by
  obtain ⟨front, -, -, -, hsame⟩ := exists_directory h
  exact hsame.isAbsolute

/-- **Putting the last name back** below the parent of a path gives the normal form of the path, up
to the root. -/
theorem normal_parent_join_fileName {p : Path} (h : p.WellFormed) :
    (p.parent.join (ofText p.fileName)).normal =
      { root := p.parent.root, tail := p.normal.tail } := by
  obtain ⟨front, hp, hfront, hname, hsame⟩ := exists_directory h
  have hrelative : (ofText p.fileName).isAbsolute = false := by
    rw [ofText_of_not_mem hname]
    rfl
  rw [normal_join_congr hsame hrelative, join_of_leads hfront hname, ← hp]

/-- A name that is joined to a directory, and what leads to it. -/
theorem exists_join_name_eq (p : Path) {name : Bytes} (hname : Ascii.slash ∉ name) :
    ∃ front, p.join (ofText name) = { root := p.root, tail := front ++ name } ∧ Leads front ∧
      (p.tail = [] → front = []) ∧ SameDirectory { root := p.root, tail := front } p := by
  rw [ofText_of_not_mem hname]
  cases hp : p.isEmpty with
  | true =>
      rw [isEmpty, Bool.and_eq_true, beq_iff_eq, List.isEmpty_iff] at hp
      obtain ⟨root, tail⟩ := p
      obtain ⟨rfl, rfl⟩ := hp
      exact ⟨[], rfl, .inl rfl, fun _ => rfl, rfl, rfl, rfl⟩
  | false =>
      obtain ⟨sep, hsep, hroot, hfront, hjoin⟩ := exists_join_eq (q := { tail := name }) hp rfl
      refine ⟨p.tail ++ sep, hjoin, hfront, fun hnil => ?_, sameDirectory_append hp hsep⟩
      rw [hnil, hroot hnil, List.append_nil]

/-- **The parent of what is joined to a directory** names the directory. -/
theorem sameDirectory_parent_join {p : Path} (h : p.WellFormed) {name : Bytes}
    (hname : Ascii.slash ∉ name) : SameDirectory (p.join (ofText name)).parent p := by
  obtain ⟨front, hjoin, hfront, -, hsame⟩ := exists_join_name_eq p hname
  have hwell := h.join (wellFormed_ofText name)
  rw [hjoin] at hwell ⊢
  exact (sameDirectory_parent hfront hname hwell).trans hsame

/-! ### Paths that are read from a text -/

/-- The root of a path that is read from a text is one slash, or the path is nothing else. -/
theorem root_ofText_le (t : Bytes) : (ofText t).root ≤ 1 ∨ (ofText t).tail = [] := by
  rw [ofText]
  split
  · exact .inr rfl
  · split
    · exact .inl (Nat.le_refl 1)
    · exact .inl (Nat.zero_le 1)

/-- A path that is read from a text has the root of its parent. -/
theorem root_parent_ofText (t : Bytes) : (ofText t).parent.root = (ofText t).root := by
  have hwell := wellFormed_ofText t
  obtain ⟨front, hp, hfront, hname, -⟩ := exists_directory hwell
  have hnil : (ofText t).tail = [] → front = [] := by
    rw [hp]
    exact fun h => (List.append_eq_nil_iff.mp h).1
  have hparent := root_parent hfront hname (hp ▸ hwell) ((root_ofText_le t).imp_right hnil)
  rwa [← hp] at hparent

/-- A directory that is read from a text has the root of the parent of what is joined to it. -/
theorem root_parent_join_ofText (t : Bytes) {name : Bytes} (hname : Ascii.slash ∉ name) :
    ((ofText t).join (ofText name)).parent.root = (ofText t).root := by
  obtain ⟨front, hjoin, hfront, hnil, -⟩ := exists_join_name_eq (ofText t) hname
  have hwell := (wellFormed_ofText t).join (wellFormed_ofText name)
  rw [hjoin] at hwell ⊢
  exact root_parent hfront hname hwell ((root_ofText_le t).imp_right hnil)

end Path

end DoctypeProbe
