import DoctypeProbe.Proofs.FileSystem
import DoctypeProbe.Proofs.Path

/-!
# Opening a File for Adding

A file that is opened for adding to its end is the one that its path leads to, or a new and empty
one where nothing stands. Either way its path leads to it from then on, every other path leads
where it led before, and no file holds anything else than before.

## Main results

* `FileSystem.openAppend_cases`: the two ways of opening a file.
* `FileSystem.fileAt?_openAppend`: the path of an opened file leads to it.
* `FileSystem.Extends.resolve`: paths that lead somewhere go on leading there.
* `FileSystem.content_openAppend`: opening a file changes no contents.
-/

namespace DoctypeProbe

namespace FileSystem

variable {fs fs' fs'' : FileSystem} {path : Bytes}

/-- The regular file that a path leads to. -/
def fileAt? (fs : FileSystem) (path : Bytes) : Option Nat :=
  match fs.resolve path with
  | .ok (_, .file number) => some number
  | _ => none

theorem fileAt?_eq_some_iff {number : Nat} :
    fs.fileAt? path = some number ↔ ∃ place, fs.resolve path = .ok (place, .file number) := by
  rw [fileAt?]
  rcases fs.resolve path with e | ⟨place, _ | n⟩ <;> simp

/-! ### Following a path -/

/-- The place where a path begins. -/
def startOf (fs : FileSystem) (text : Bytes) : Place :=
  if (Path.ofText text).isAbsolute then [] else fs.workingDirectory

theorem resolve_eq (fs : FileSystem) (path : Bytes) :
    fs.resolve path =
      if path.untilNul = [] then .error .noEntry
      else if pathLimit ≤ path.untilNul.length then .error .nameTooLong
      else
        match fs.follow (fs.startOf path.untilNul) .directory
          (Path.ofText path.untilNul).names with
        | .ok (place, .file number) =>
          if (Path.ofText path.untilNul).endsInSlash then .error .notDirectory
          else .ok (place, .file number)
        | outcome => outcome := by
  rw [resolve]
  refine if_congr ?_ rfl (if_congr ?_ rfl rfl)
  · rw [Path.isEmpty_ofText, List.isEmpty_iff]
  · rw [Path.text_ofText]

/-- **When a path leads somewhere**: its names do, and a slash at its end asks for a directory. -/
theorem resolve_eq_ok_iff {found : Place × Entry} :
    fs.resolve path = .ok found ↔
      path.untilNul ≠ [] ∧ path.untilNul.length < pathLimit ∧
      fs.follow (fs.startOf path.untilNul) .directory (Path.ofText path.untilNul).names =
        .ok found ∧
      (found.2 = .directory ∨ (Path.ofText path.untilNul).endsInSlash = false) := by
  rw [resolve_eq]
  by_cases hempty : path.untilNul = []
  · rw [if_pos hempty]
    exact iff_of_false (fun h => nomatch h) fun h => h.1 hempty
  · rw [if_neg hempty]
    by_cases hlength : pathLimit ≤ path.untilNul.length
    · rw [if_pos hlength]
      exact iff_of_false (fun h => nomatch h) fun h => Nat.not_le.mpr h.2.1 hlength
    · rw [if_neg hlength]
      rcases fs.follow (fs.startOf path.untilNul) .directory (Path.ofText path.untilNul).names with
        e | ⟨place, _ | number⟩
      · exact iff_of_false (fun h => nomatch h) fun h => nomatch h.2.2.1
      · refine ⟨fun h => ?_, fun h => h.2.2.1⟩
        cases h
        exact ⟨hempty, Nat.lt_of_not_le hlength, rfl, .inl rfl⟩
      · cases hslash : (Path.ofText path.untilNul).endsInSlash with
        | true =>
            refine iff_of_false (fun h => nomatch h) fun h => ?_
            obtain ⟨-, -, hfound, hfile | hslash⟩ := h
            · cases hfound
              cases hfile
            · cases hslash
        | false =>
            exact ⟨fun h => ⟨hempty, Nat.lt_of_not_le hlength, h, .inr rfl⟩, fun h => h.2.2.1⟩

/-- A path on which nothing stands leads to nothing by its names. -/
theorem follow_of_resolve_eq_noEntry (h : fs.resolve path = .error .noEntry)
    (hne : path.untilNul ≠ []) :
    path.untilNul.length < pathLimit ∧
      fs.follow (fs.startOf path.untilNul) .directory (Path.ofText path.untilNul).names =
        .error .noEntry := by
  rw [resolve_eq, if_neg hne] at h
  by_cases hlength : pathLimit ≤ path.untilNul.length
  · rw [if_pos hlength] at h
    cases h
  · rw [if_neg hlength] at h
    refine ⟨Nat.lt_of_not_le hlength, ?_⟩
    rcases hf : fs.follow (fs.startOf path.untilNul) .directory
      (Path.ofText path.untilNul).names with e | ⟨place, _ | number⟩
    · rw [hf] at h
      exact h
    · rw [hf] at h
      cases h
    · rw [hf] at h
      simp only at h
      split at h <;> cases h

/-- Names are followed one part after the other. -/
theorem follow_append {place place' : Place} {entry entry' : Entry} {front : List Bytes}
    (h : fs.follow place entry front = .ok (place', entry')) (names : List Bytes) :
    fs.follow place entry (front ++ names) = fs.follow place' entry' names := by
  induction front generalizing place entry with
  | nil =>
      cases entry <;>
      · cases h
        rfl
  | cons name front ih =>
      cases entry with
      | file n => cases h
      | directory =>
          rw [List.cons_append]
          rw [follow] at h ⊢
          split_ifs at h ⊢
          · exact ih h
          · exact ih h
          · cases he : fs.entry? (place ++ [name]) with
            | none =>
                rw [he] at h
                cases h
            | some entry'' =>
                rw [he] at h
                exact ih h

/-- A name that can be given to a file. -/
structure Nameable (name : Bytes) : Prop where
  ne_here : name ≠ Path.here
  ne_above : name ≠ Path.above
  length_le : name.length ≤ nameLimit

/-- A name that can be given to a file leads to what stands under it. -/
theorem follow_nameable {name : Bytes} (h : Nameable name) (place : Place) :
    fs.follow place .directory [name] =
      match fs.entry? (place ++ [name]) with
      | none => .error .noEntry
      | some entry => .ok (place ++ [name], entry) := by
  rw [follow, if_neg h.ne_here, if_neg h.ne_above, if_neg (Nat.not_lt.mpr h.length_le)]
  cases fs.entry? (place ++ [name]) with
  | none => rfl
  | some entry => cases entry <;> rfl

/-- A name in a directory that leads to nothing can be given to a file. -/
theorem nameable_of_follow {name : Bytes} {place : Place}
    (h : fs.follow place .directory [name] = .error .noEntry) : Nameable name := by
  rw [follow] at h
  split_ifs at h with hhere habove hlength
  · cases h
  · cases h
  · cases h
  · exact ⟨hhere, habove, Nat.le_of_not_lt hlength⟩

/-! ### File systems with more names -/

/-- Whatever stands in a place of a file system stands there in another one, which may have more
names. -/
structure Extends (fs fs' : FileSystem) : Prop where
  /-- The working directory is the same. -/
  workingDirectory : fs'.workingDirectory = fs.workingDirectory
  /-- What stands in a place stays there. -/
  entry : ∀ place entry, fs.entry? place = some entry → fs'.entry? place = some entry

theorem Extends.refl (fs : FileSystem) : Extends fs fs := ⟨rfl, fun _ _ h => h⟩

theorem Extends.trans (h : Extends fs fs') (h' : Extends fs' fs'') : Extends fs fs'' where
  workingDirectory := h'.workingDirectory.trans h.workingDirectory
  entry place entry he := h'.entry place entry (h.entry place entry he)

theorem SameOutside.extends {number : Option Nat} (h : SameOutside number fs fs') :
    Extends fs fs' where
  workingDirectory := h.workingDirectory
  entry place entry he := by rwa [ entry?, h.entries]

/-- Names that can be followed can be followed with more names around. -/
theorem Extends.follow (h : Extends fs fs') {place : Place} {entry : Entry} {names : List Bytes}
    {found : Place × Entry} (hf : fs.follow place entry names = .ok found) :
    fs'.follow place entry names = .ok found := by
  induction names generalizing place entry with
  | nil => cases entry <;> exact hf
  | cons name names ih =>
      cases entry with
      | file n => cases hf
      | directory =>
          rw [FileSystem.follow] at hf ⊢
          split_ifs at hf ⊢
          · exact ih hf
          · exact ih hf
          · cases he : fs.entry? (place ++ [name]) with
            | none =>
                rw [he] at hf
                cases hf
            | some entry' =>
                rw [he] at hf
                rw [h.entry _ _ he]
                exact ih hf

/-- **Paths that lead somewhere** go on leading there. -/
theorem Extends.resolve (h : Extends fs fs') {found : Place × Entry}
    (hr : fs.resolve path = .ok found) : fs'.resolve path = .ok found := by
  rw [resolve_eq_ok_iff] at hr ⊢
  obtain ⟨hne, hlength, hfollow, hslash⟩ := hr
  refine ⟨hne, hlength, ?_, hslash⟩
  rw [startOf, h.workingDirectory]
  exact h.follow hfollow

theorem Extends.fileAt? (h : Extends fs fs') {number : Nat}
    (hf : fs.fileAt? path = some number) : fs'.fileAt? path = some number := by
  rw [fileAt?_eq_some_iff] at hf ⊢
  obtain ⟨place, hr⟩ := hf
  exact ⟨place, h.resolve hr⟩

/-! ### New files -/

theorem lt_foldl_max (contents : List (Nat × Bytes)) (m : Nat) :
    m ≤ contents.foldl (fun n (number, _) => max n (number + 1)) m ∧
      ∀ entry ∈ contents,
        entry.1 < contents.foldl (fun n (number, _) => max n (number + 1)) m := by
  induction contents generalizing m with
  | nil => exact ⟨Nat.le_refl m, nofun⟩
  | cons entry contents ih =>
      obtain ⟨hle, hlt⟩ := ih (max m (entry.1 + 1))
      rw [List.foldl_cons]
      refine ⟨(Nat.le_max_left _ _).trans hle, fun entry' hmem => ?_⟩
      rcases List.mem_cons.mp hmem with rfl | hmem
      · exact Nat.lt_of_lt_of_le (Nat.lt_succ_self _) ((Nat.le_max_right _ _).trans hle)
      · exact hlt entry' hmem

/-- A file number that is not in use has no contents. -/
theorem lookup_freshNumber (fs : FileSystem) : fs.contents.lookup fs.freshNumber = none := by
  rw [List.lookup_eq_none_iff]
  intro entry hmem
  have hlt : entry.1 < fs.freshNumber := (lt_foldl_max fs.contents 0).2 entry hmem
  exact bne_iff_ne.mpr hlt.ne'

/-- **A new file** is empty, and the others hold what they held. -/
theorem content_create (fs : FileSystem) (place : Place) (n : Nat) :
    (fs.create place).2.content n = fs.content n := by
  rw [content, content, create, List.lookup_cons]
  by_cases hn : n = fs.freshNumber
  · rw [hn, beq_self_eq_true, lookup_freshNumber]
    rfl
  · rw [beq_false_of_ne hn]

/-- **A new file stands in its place**, and everything else where it stood. -/
theorem entry?_create {place : Place} (h : fs.entry? place = none) (place' : Place) :
    FileSystem.entry? (fs.create place).2 place' =
      if place' = place then some (.file fs.freshNumber) else fs.entry? place' := by
  have hplace : place ≠ [] := by
    rintro rfl
    cases h
  rw [ entry?, if_neg hplace, List.lookup_eq_none_iff] at h
  have hkept : fs.entries.filter (·.1 != place) = fs.entries :=
    List.filter_eq_self.mpr fun entry hmem => by
      have hne := h entry hmem
      rwa [bne_comm] at hne
  rw [ entry?, entry?, create]
  simp only [hkept, List.lookup_cons]
  by_cases hp : place' = place
  · subst hp
    rw [if_neg hplace, beq_self_eq_true, if_pos rfl]
  · rw [beq_false_of_ne hp, if_neg hp]

theorem extends_create {place : Place} (h : fs.entry? place = none) :
    Extends fs (fs.create place).2 where
  workingDirectory := rfl
  entry place' entry he := by
    rw [entry?_create h, if_neg ?_, he]
    rintro rfl
    cases he.symm.trans h

/-! ### Opening a file -/

/-- The directory that leads to a name is where its path begins, followed by its own names. -/
theorem follow_of_resolve_front {front name : Bytes} {place : Place} (hfront : Path.Leads front)
    (hname : Ascii.slash ∉ name) (hnul : Ascii.nul ∉ front)
    (h : fs.resolve (if front = [] then Path.here else front) = .ok (place, .directory)) :
    fs.follow (fs.startOf (front ++ name)) .directory (Path.ofText front).names =
      .ok (place, .directory) := by
  have huntil : front.untilNul = front :=
    List.takeWhile_eq_self_iff.mpr fun b hb => bne_iff_ne.mpr fun hb' => hnul (hb' ▸ hb)
  have hstart : front ≠ [] → fs.startOf (front ++ name) = fs.startOf front := by
    intro hne
    obtain ⟨b, rest, rfl⟩ := List.exists_cons_of_ne_nil hne
    simp only [startOf, Path.isAbsolute_ofText, List.cons_append, List.head?_cons]
  by_cases hempty : front = []
  · subst hempty
    rw [if_pos rfl, resolve_eq_ok_iff] at h
    have hhere : fs.startOf name = fs.startOf Path.here := by
      have hhead : (name.head? == some Ascii.slash) = false :=
        beq_eq_false_iff_ne.mpr fun hh => hname (List.mem_of_head? hh)
      simp only [startOf, Path.isAbsolute_ofText, hhead]
      rfl
    rw [List.nil_append, hhere]
    exact h.2.2.1
  · rw [if_neg hempty, resolve_eq_ok_iff, huntil] at h
    rw [hstart hempty]
    exact h.2.2.1

/-- **A new file** under a name of which the path leads to nothing, while what stands before the
name leads to a directory. -/
theorem resolve_create {front name : Bytes} {place : Place}
    (hpath : path.untilNul = front ++ name) (hfront : Path.Leads front)
    (hname : Ascii.slash ∉ name) (hne : name ≠ []) (hr : fs.resolve path = .error .noEntry)
    (hdirectory : fs.resolve (if front = [] then Path.here else front) =
      .ok (place, .directory)) :
    fs.entry? (place ++ [name]) = none ∧
      (fs.create (place ++ [name])).2.resolve path =
        .ok (place ++ [name], .file fs.freshNumber) := by
  have hnul : Ascii.nul ∉ front := fun hmem => by
    have hmem' : Ascii.nul ∈ path.untilNul := hpath ▸ List.mem_append_left name hmem
    exact absurd (List.mem_takeWhile_imp hmem') (by decide)
  have hnonempty : path.untilNul ≠ [] := hpath ▸ List.append_ne_nil_of_right_ne_nil front hne
  have hbefore := follow_of_resolve_front hfront hname hnul hdirectory
  obtain ⟨hlength, hmissing⟩ := follow_of_resolve_eq_noEntry hr hnonempty
  have hnames : (Path.ofText path.untilNul).names = (Path.ofText front).names ++ [name] :=
    hpath ▸ Path.names_append hfront hname hne
  rw [hnames, hpath, follow_append hbefore] at hmissing
  have hnameable := nameable_of_follow hmissing
  have hvacant : fs.entry? (place ++ [name]) = none := by
    rw [follow_nameable hnameable] at hmissing
    cases he : fs.entry? (place ++ [name]) with
    | none => rfl
    | some entry =>
        rw [he] at hmissing
        cases hmissing
  have hextends := extends_create hvacant
  refine ⟨hvacant, resolve_eq_ok_iff.mpr ⟨hnonempty, hlength, ?_, Or.inr ?_⟩⟩
  · have hbefore' := hextends.follow hbefore
    rw [startOf] at hbefore'
    rw [hnames, startOf, hpath, hextends.workingDirectory, follow_append hbefore',
      follow_nameable hnameable, entry?_create hvacant, if_pos rfl]
  · rw [Path.endsInSlash, Path.text_ofText, hpath, List.getLast?_append_of_ne_nil front hne]
    exact beq_eq_false_iff_ne.mpr fun hlast => hname (List.mem_of_getLast? hlast)

/-- What stands before the name that a text ends in. -/
theorem take_front {text front name : Bytes} (h : text = front ++ name) :
    (if name.length = text.length then Path.here
      else text.take (text.length - name.length)) =
      if front = [] then Path.here else front := by
  rw [h, List.length_append]
  by_cases hfront : front = []
  · rw [if_pos hfront, hfront, List.length_nil, if_pos (Nat.zero_add _).symm]
  · have hpositive := List.length_pos_iff.mpr hfront
    rw [if_neg hfront, if_neg (by omega), Nat.add_sub_cancel, List.take_left]

/-- **A file that is opened for adding** is the one that its path leads to, or a new one in a place
where nothing stood. -/
theorem openAppend_cases {number : Nat} (h : fs.openAppend path = .ok (number, fs')) :
    (fs' = fs ∧ ∃ place, fs.resolve path = .ok (place, .file number)) ∨
      ∃ place, fs.entry? place = none ∧ fs.create place = (number, fs') ∧
        fs'.resolve path = .ok (place, .file number) := by
  rw [openAppend] at h
  cases hr : fs.resolve path with
  | ok found =>
      obtain ⟨place, _ | n⟩ := found
      · rw [hr] at h
        cases h
      · rw [hr] at h
        cases h
        exact Or.inl ⟨rfl, place, rfl⟩
  | error e =>
      obtain ⟨front, hpath, hfront, hname⟩ := Path.exists_eq_append_fileName path.untilNul
      simp only [hr, take_front hpath] at h
      generalize hfrom : (if front = [] then Path.here else front) = directory at h
      -- the two refusals before the directory is looked at contradict `h`
      split_ifs at h with he hempty
      rw [bne_iff_ne, not_not] at he
      rw [List.isEmpty_iff] at hempty
      subst he
      cases hdirectory : fs.resolve directory with
      | error e =>
          rw [hdirectory] at h
          cases h
      | ok found =>
          obtain ⟨place, _ | n⟩ := found
          · simp only [hdirectory] at h
            split_ifs at h
            obtain ⟨hvacant, hcreated⟩ :=
              resolve_create hpath hfront hname hempty hr (hfrom ▸ hdirectory)
            cases h
            exact Or.inr ⟨_, hvacant, rfl, hcreated⟩
          · rw [hdirectory] at h
            cases h

/-- **The path of an opened file** leads to it. -/
theorem fileAt?_openAppend {number : Nat} (h : fs.openAppend path = .ok (number, fs')) :
    fs'.fileAt? path = some number := by
  rw [fileAt?_eq_some_iff]
  rcases openAppend_cases h with ⟨rfl, hfound⟩ | ⟨place, -, -, hfound⟩
  · exact hfound
  · exact ⟨place, hfound⟩

/-- A file can be opened if its path leads to it. -/
theorem openAppend_of_fileAt? {number : Nat} (h : fs.fileAt? path = some number) :
    fs.openAppend path = .ok (number, fs) := by
  obtain ⟨place, hr⟩ := fileAt?_eq_some_iff.mp h
  rw [openAppend, hr]

/-- The path of a file that cannot be opened leads to no file. -/
theorem fileAt?_of_openAppend_error {e : Errno} (h : fs.openAppend path = .error e) :
    fs.fileAt? path = none := by
  cases hf : fs.fileAt? path with
  | none => rfl
  | some number =>
      rw [openAppend_of_fileAt? hf] at h
      cases h

/-- Opening a file takes no name away. -/
theorem extends_openAppend {number : Nat} (h : fs.openAppend path = .ok (number, fs')) :
    Extends fs fs' := by
  rcases openAppend_cases h with ⟨rfl, -⟩ | ⟨place, hvacant, hcreate, -⟩
  · exact .refl _
  · have hextends := extends_create hvacant
    rwa [hcreate] at hextends

/-- Opening a file neither makes a working directory nor takes it away. -/
theorem hasWorkingDirectory_openAppend {number : Nat}
    (h : fs.openAppend path = .ok (number, fs')) :
    fs'.HasWorkingDirectory ↔ fs.HasWorkingDirectory := by
  rcases openAppend_cases h with ⟨rfl, -⟩ | ⟨place, hvacant, hcreate, -⟩
  · exact Iff.rfl
  · obtain rfl : (fs.create place).2 = fs' := by rw [hcreate]
    rw [HasWorkingDirectory, HasWorkingDirectory, (extends_create hvacant).workingDirectory,
      entry?_create hvacant]
    split_ifs with hplace
    · -- a new file stands where nothing stood, and it is not a directory
      rw [hplace, hvacant]
      simp
    · exact Iff.rfl

/-- **Opening a file** changes no contents. -/
theorem content_openAppend {number : Nat} (h : fs.openAppend path = .ok (number, fs')) (n : Nat) :
    fs'.content n = fs.content n := by
  rcases openAppend_cases h with ⟨rfl, -⟩ | ⟨place, -, hcreate, -⟩
  · rfl
  · have hcontent := content_create fs place n
    rwa [hcreate] at hcontent

end FileSystem

end DoctypeProbe
