import DoctypeProbe.Proofs.Number.Numeral
import DoctypeProbe.Proofs.Toml.Reading

/-!
# Writing Settings Documents

Statements are written one a line: a section header in brackets, and an assignment as its key, an
equals sign and its value. Strings are written in double quotes, with escapes for backslashes,
double quotes and line feeds, and every other byte as it is. What is written is read back, however
the text goes on.

Bare keys, and values that hold neither floating-point numbers nor tables, can be written.

## Main results

* `Toml.value?_write`: a value is read back.
* `Toml.script_writeAll`: statements are read back.
-/

namespace DoctypeProbe

namespace Toml

/-! ### Writing -/

/-- A byte in a string between double quotes. -/
def escape (b : Byte) : Bytes :=
  if b = Ascii.backslash || b = Ascii.quote then [Ascii.backslash, b]
  else if b = Ascii.lf then [Ascii.backslash, 0x6E]
  else [b]

/-- The word for a truth value. -/
def booleanWord : Bool → Bytes
  | true => ascii "true"
  | false => ascii "false"

mutual

/-- A value in a document. There is no way to write floating-point numbers, and tables are written
as sections. -/
def Node.write : Node → Bytes
  | .string text => Ascii.quote :: text.flatMap escape ++ [Ascii.quote]
  | .integer n => Bytes.signedDecimal n.toInt
  | .boolean v => booleanWord v
  | .array items => Ascii.openBracket :: writeItems items
  | .float _ => []
  | .table _ => []

/-- The items of an array, and the bracket that closes them. -/
def writeItems : List Node → Bytes
  | [] => [Ascii.closeBracket]
  | node :: nodes => node.write ++ writeMore nodes

/-- The items of an array after the first, and the bracket that closes them. -/
def writeMore : List Node → Bytes
  | [] => [Ascii.closeBracket]
  | node :: nodes => Ascii.comma :: Ascii.space :: node.write ++ writeMore nodes

end

/-- A statement on a line of its own. -/
def Statement.write : Statement → Bytes
  | .header path => Ascii.openBracket :: path ++ [Ascii.closeBracket, Ascii.lf]
  | .assign key node => key ++ ascii " = " ++ node.write ++ [Ascii.lf]

/-- Statements, one a line. -/
def writeAll (sts : List Statement) : Bytes := sts.flatMap Statement.write

/-! ### What can be written -/

/-- A value that holds neither floating-point numbers nor tables. -/
inductive Node.Plain : Node → Prop
  | string (text : Bytes) : Plain (.string text)
  | integer (n : Int64) : Plain (.integer n)
  | boolean (v : Bool) : Plain (.boolean v)
  | array {items : List Node} : (∀ node ∈ items, Plain node) → Plain (.array items)

/-- A key that can stand without quotes. -/
def IsBareKey (key : Bytes) : Prop := key ≠ [] ∧ key.all isKeyByte = true

instance (key : Bytes) : Decidable (IsBareKey key) := inferInstanceAs (Decidable (_ ∧ _))

/-- A byte of a dotted path of bare keys. -/
def isPathByte (b : Byte) : Bool := isKeyByte b || b == Ascii.dot

/-- A statement that can be written. -/
def Statement.Writable : Statement → Prop
  | .header path => path ≠ [] ∧ path.all isPathByte = true
  | .assign key node => IsBareKey key ∧ node.Plain

/-! ### Reading values back -/

/-- What stands behind a value that has been written: the end of a line, or what goes on in an
array. -/
def isAfterValue (b : Byte) : Bool :=
  b == Ascii.lf || b == Ascii.comma || b == Ascii.closeBracket

theorem isAfterValue_iff {b : Byte} :
    isAfterValue b = true ↔ b = Ascii.lf ∨ b = Ascii.comma ∨ b = Ascii.closeBracket := by
  simp [isAfterValue, or_assoc]

/-- Words and numerals do not go on. -/
theorem not_of_isAfterValue {b : Byte} (h : isAfterValue b = true) :
    Ascii.isAlpha b = false ∧ isNumeralByte b = false := by
  rcases isAfterValue_iff.mp h with rfl | rfl | rfl <;> decide

/-- What a value that has been written begins with. -/
def isFirstOfValue (b : Byte) : Bool :=
  b == Ascii.quote || b == Ascii.openBracket || b == 0x74 || b == 0x66 || b == Ascii.minus ||
    Ascii.isDigit b

theorem isFirstOfValue_cases {b : Byte} (h : isFirstOfValue b = true) :
    b = Ascii.quote ∨ b = Ascii.openBracket ∨ b = 0x74 ∨ b = 0x66 ∨ b = Ascii.minus ∨
      Ascii.isDigit b = true := by
  simpa [isFirstOfValue, or_assoc] using h

/-- Bytes are told apart by the classes they are in. -/
theorem ne_of_class {p : Byte → Bool} {b : Byte} (h : p b = true) (b' : Byte)
    (h' : p b' = false) : b ≠ b' := by
  rintro rfl
  rw [h] at h'
  cases h'

/-- A value is not skipped, and is not the end of an array. -/
theorem not_of_isFirstOfValue {b : Byte} (h : isFirstOfValue b = true) :
    Cursor.isSpace b = false ∧ Cursor.isLineEnd b = false ∧ b ≠ Ascii.hash ∧
      b ≠ Ascii.closeBracket := by
  rcases isFirstOfValue_cases h with rfl | rfl | rfl | rfl | rfl | hd
  iterate 5 decide
  have hne : ∀ b', Ascii.isDigit b' = false → b ≠ b' := ne_of_class hd
  simp [Cursor.isSpace, Cursor.isLineEnd, hne Ascii.space (by decide), hne Ascii.tab (by decide),
    hne Ascii.lf (by decide), hne Ascii.cr (by decide), hne Ascii.hash (by decide),
    hne Ascii.closeBracket (by decide)]

theorem afterBlank_cons_of_not {b : Byte} (hspace : Cursor.isSpace b = false)
    (hend : Cursor.isLineEnd b = false) (hhash : b ≠ Ascii.hash) (s : Bytes) :
    afterBlank (b :: s) = b :: s := by
  rw [afterBlank_cons, hspace, hend, if_neg (by simp), if_neg hhash]

theorem Node.Plain.exists_write_eq {node : Node} (h : node.Plain) :
    ∃ b s, node.write = b :: s ∧ isFirstOfValue b = true := by
  cases h with
  | string text => exact ⟨_, _, rfl, rfl⟩
  | integer n =>
      obtain ⟨b, digits, hd, hb, -⟩ := Bytes.exists_signedDecimal_eq n.toInt
      refine ⟨b, digits, hd, ?_⟩
      rcases hb with rfl | hb
      · rfl
      · simp [isFirstOfValue, hb]
  | boolean v => cases v <;> exact ⟨_, _, rfl, by decide⟩
  | array _ => exact ⟨_, _, rfl, rfl⟩

/-- **A string** is read back: each escape stands for the byte that was written. -/
theorem string?_escape (text rest : Bytes) :
    string? Ascii.quote (text.flatMap escape ++ Ascii.quote :: rest) = some (text, rest) := by
  induction text with
  | nil =>
      rw [List.flatMap_nil, List.nil_append, string?_cons, if_pos rfl]
  | cons b text ih =>
      rw [List.flatMap_cons, List.append_assoc, escape]
      split_ifs with hb hlf
      · have hu : unescape b = some b := by
          rcases (by simpa using hb : b = Ascii.backslash ∨ b = Ascii.quote) with rfl | rfl <;> rfl
        rw [List.cons_append, string?_cons, if_neg (by decide), if_neg (by decide),
          if_pos (by decide), List.singleton_append, escaped?, hu, ih]
        rfl
      · rw [List.cons_append, string?_cons, if_neg (by decide), if_neg (by decide),
          if_pos (by decide), List.singleton_append, escaped?, ih, hlf]
        rfl
      · simp only [Bool.or_eq_true, decide_eq_true_eq, not_or] at hb
        rw [List.singleton_append, string?_cons, if_neg hb.2, if_neg hlf,
          if_neg (by simp [hb.1]), ih]
        rfl

/-- A numeral ends with its digits. -/
theorem numeralBody_digits {digits : Bytes} (hdigits : ∀ d ∈ digits, Ascii.isDigit d = true)
    {e : Byte} (he : isNumeralByte e = false) (last : Byte) (rest : Bytes) :
    numeralBody last (digits ++ e :: rest) = digits := by
  induction digits generalizing last with
  | nil => exact numeralBody_of_not he last rest
  | cons d digits ih =>
      obtain ⟨hd, hdigits⟩ := List.forall_mem_cons.mp hdigits
      rw [List.cons_append, numeralBody, if_neg (ne_of_class hd _ (by decide)),
        if_pos (by simp [hd]), ih hdigits]

/-- **The numeral of a 64-bit integer** stands for it. -/
theorem number?_signedDecimal (n : Int64) :
    number? (Bytes.signedDecimal n.toInt) = some (.integer n) := by
  obtain ⟨b, digits, hd, hb, hdigits⟩ := Bytes.exists_signedDecimal_eq n.toInt
  have hfirst : (b == Ascii.dot || Ascii.lower b == 0x65) = false := by
    rcases hb with rfl | hb
    · rfl
    · exact Numeral.not_marker_of_isDigit hb
  have hinteger : (Bytes.signedDecimal n.toInt).any
      (fun b => b == Ascii.dot || Ascii.lower b == 0x65) = false := by
    rw [hd, List.any_eq_false]
    refine List.forall_mem_cons.mpr ⟨by simp [hfirst], fun d hd => ?_⟩
    simp [Numeral.not_marker_of_isDigit (hdigits d hd)]
  have hfits : Numeral.fitsInt64 n.toInt = true := by
    have hle := Int64.le_toInt n
    have hlt := Int64.toInt_lt n
    simp only [Numeral.fitsInt64, Bool.and_eq_true, decide_eq_true_eq]
    omega
  rw [number?, hinteger, if_neg Bool.false_ne_true, Numeral.integer?_signedDecimal]
  simp [hfits]

/-- **An integer** is read back. -/
theorem value?_signedDecimal (n : Int64) {e : Byte} (he : isAfterValue e = true) (rest : Bytes) :
    value? (Bytes.signedDecimal n.toInt ++ e :: rest) = some (.integer n, e :: rest) := by
  obtain ⟨b, digits, hd, hb, hdigits⟩ := Bytes.exists_signedDecimal_eq n.toInt
  have hbegins : (b = Ascii.plus || b = Ascii.minus || Ascii.isDigit b) = true := by
    rcases hb with rfl | hb
    · rfl
    · rw [hb, Bool.or_true]
  have hbody : numeralBody b (digits ++ e :: rest) = digits :=
    numeralBody_digits hdigits (not_of_isAfterValue he).2 b rest
  have hfilter : digits.filter (· != Ascii.underscore) = digits :=
    List.filter_eq_self.mpr fun d hd =>
      bne_iff_ne.mpr (ne_of_class (hdigits d hd) Ascii.underscore (by decide))
  rw [hd, List.cons_append, value?_number hbegins, hbody, hfilter, ← hd, number?_signedDecimal,
    List.drop_left]
  rfl

/-- A word is read to its end. -/
theorem value?_word {b : Byte} {letters : Bytes} (hb : b = 0x74 ∨ b = 0x66)
    (hletters : letters.all Ascii.isAlpha = true) {e : Byte} (he : Ascii.isAlpha e = false)
    (rest : Bytes) :
    value? (b :: letters ++ e :: rest) =
      (boolean? (b :: letters)).map fun v => (.boolean v, e :: rest) := by
  rw [List.all_eq_true] at hletters
  have htake : (letters ++ e :: rest).takeWhile Ascii.isAlpha = letters := by
    rw [List.takeWhile_append_of_pos hletters, List.takeWhile_cons_of_neg (by simp [he]),
      List.append_nil]
  have hdrop : (letters ++ e :: rest).dropWhile Ascii.isAlpha = e :: rest := by
    rw [List.dropWhile_append_of_pos hletters, List.dropWhile_cons_of_neg (by simp [he])]
  rw [List.cons_append, value?_cons, if_neg (by rcases hb with rfl | rfl <;> decide), scalar?,
    if_neg (by rcases hb with rfl | rfl <;> decide), if_pos (by simpa using hb), htake, hdrop]

/-- **A truth value** is read back. -/
theorem value?_booleanWord (v : Bool) {e : Byte} (he : isAfterValue e = true) (rest : Bytes) :
    value? (booleanWord v ++ e :: rest) = some (.boolean v, e :: rest) := by
  have halpha := (not_of_isAfterValue he).1
  have htrue : ascii "true" = 0x74 :: [0x72, 0x75, 0x65] := by decide
  have hfalse : ascii "false" = 0x66 :: [0x61, 0x6C, 0x73, 0x65] := by decide
  cases v with
  | true =>
      rw [booleanWord, htrue, value?_word (Or.inl rfl) (by decide) halpha, ← htrue]
      rfl
  | false =>
      rw [booleanWord, hfalse, value?_word (Or.inr rfl) (by decide) halpha, ← hfalse]
      rfl

theorem afterBlank_write {node : Node} (h : node.Plain) (rest : Bytes) :
    afterBlank (node.write ++ rest) = node.write ++ rest := by
  obtain ⟨b, s, hw, hb⟩ := h.exists_write_eq
  obtain ⟨hspace, hend, hhash, -⟩ := not_of_isFirstOfValue hb
  rw [hw, List.cons_append, afterBlank_cons_of_not hspace hend hhash]

/-- An item is a value. -/
theorem items?_of_value? {node : Node} (h : node.Plain) {s rest : Bytes}
    (hv : value? (node.write ++ s) = some (node, rest)) :
    items? (node.write ++ s) = itemsAfter? node (afterBlank rest) := by
  obtain ⟨b, t, hw, hb⟩ := h.exists_write_eq
  rw [hw, List.cons_append] at hv ⊢
  exact items?_of_item (not_of_isFirstOfValue hb).2.2.2 hv

/-- **Items** are read back, if each of them is. -/
theorem items?_write {node : Node} {nodes : List Node} (hplain : ∀ n ∈ node :: nodes, n.Plain)
    (hread : ∀ n ∈ node :: nodes, ∀ e, isAfterValue e = true → ∀ rest,
      value? (n.write ++ e :: rest) = some (n, e :: rest)) (rest : Bytes) :
    items? (node.write ++ (writeMore nodes ++ rest)) = some (node :: nodes, rest) := by
  induction nodes generalizing node with
  | nil =>
      have hv := hread node List.mem_cons_self Ascii.closeBracket rfl rest
      rw [writeMore, List.singleton_append, items?_of_value? (hplain node List.mem_cons_self) hv]
      rfl
  | cons node' nodes ih =>
      obtain ⟨hnode, hnodes⟩ := List.forall_mem_cons.mp hplain
      obtain ⟨hv, hvs⟩ := List.forall_mem_cons.mp hread
      have hmore : writeMore (node' :: nodes) ++ rest =
          Ascii.comma :: Ascii.space :: (node'.write ++ (writeMore nodes ++ rest)) := by
        simp [writeMore]
      have hblank : afterBlank (Ascii.space :: (node'.write ++ (writeMore nodes ++ rest))) =
          node'.write ++ (writeMore nodes ++ rest) :=
        afterBlank_write (hnodes node' List.mem_cons_self) _
      rw [hmore, items?_of_value? hnode (hv _ rfl _)]
      change (items? (afterBlank (Ascii.space :: _))).map _ = _
      rw [hblank, ih hnodes hvs]
      rfl

/-- **A value** is read back. -/
theorem value?_write {node : Node} (h : node.Plain) {e : Byte} (he : isAfterValue e = true)
    (rest : Bytes) : value? (node.write ++ e :: rest) = some (node, e :: rest) := by
  induction h generalizing e rest with
  | string text =>
      rw [Node.write, List.cons_append, List.cons_append, value?_cons, if_neg (by decide), scalar?,
        if_pos (by decide), List.append_assoc, List.singleton_append, string?_escape]
      rfl
  | integer n => exact value?_signedDecimal n he rest
  | boolean v => exact value?_booleanWord v he rest
  | @array items hplain ih =>
      rw [Node.write, List.cons_append, value?_cons, if_pos rfl]
      cases items with
      | nil =>
          change (items? (Ascii.closeBracket :: e :: rest)).map _ = _
          rw [items?_cons, if_pos rfl]
          rfl
      | cons node nodes =>
          rw [writeItems, List.append_assoc, afterBlank_write (hplain node List.mem_cons_self),
            items?_write hplain fun n hn e he rest => ih n hn he rest]
          rfl

/-! ### Reading statements back -/

/-- The bytes of a path are neither white space nor the end of a section header. -/
theorem not_of_isPathByte {b : Byte} (h : isPathByte b = true) :
    Cursor.isSpace b = false ∧ isInside b = true := by
  rcases (by simpa [isPathByte] using h : isKeyByte b = true ∨ b = Ascii.dot) with h | rfl
  · simp [Cursor.isSpace, isInside, ne_of_class h Ascii.space (by decide),
      ne_of_class h Ascii.tab (by decide), ne_of_class h Ascii.lf (by decide),
      ne_of_class h Ascii.closeBracket (by decide)]
  · decide

theorem dropWhile_of_forall_not {p : Byte → Bool} {s : Bytes} (h : ∀ b ∈ s, p b = false) :
    s.dropWhile p = s := by
  cases s with
  | nil => rfl
  | cons b s => exact List.dropWhile_cons_of_neg (by simp [h b List.mem_cons_self])

theorem trim_of_forall_not {s : Bytes} (h : ∀ b ∈ s, Cursor.isSpace b = false) : trim s = s := by
  rw [trim, dropWhile_of_forall_not h,
    dropWhile_of_forall_not fun b hb => h b (List.mem_reverse.mp hb), List.reverse_reverse]

/-- **A section header** is read back. -/
theorem header?_write {path : Bytes} (hne : path ≠ []) (hpath : path.all isPathByte = true)
    (rest : Bytes) : header? (path ++ Ascii.closeBracket :: rest) = some (path, rest) := by
  rw [List.all_eq_true] at hpath
  have hinside : ∀ b ∈ path, isInside b = true := fun b hb => (not_of_isPathByte (hpath b hb)).2
  have hclose : ¬isInside Ascii.closeBracket = true := by decide
  have htrim : trim path = path :=
    trim_of_forall_not fun b hb => (not_of_isPathByte (hpath b hb)).1
  rw [header?, List.dropWhile_append_of_pos hinside, List.dropWhile_cons_of_neg hclose,
    List.takeWhile_append_of_pos hinside, List.takeWhile_cons_of_neg hclose, List.append_nil, htrim]
  exact if_pos ⟨rfl, hne⟩

theorem first_of_isBareKey {b : Byte} {s : Bytes} (h : IsBareKey (b :: s)) :
    isKeyByte b = true := List.all_eq_true.mp h.2 b List.mem_cons_self

/-- **An assignment** is read with what is read as its value. -/
theorem assignment?_of_value? {key s rest : Bytes} {node : Node} (hkey : IsBareKey key)
    (hvalue : value? s = some (node, rest)) :
    assignment? (key ++ Ascii.space :: Ascii.equals :: Ascii.space :: s) =
      some ((key, node), rest) := by
  obtain ⟨hne, hbytes⟩ := hkey
  rw [List.all_eq_true] at hbytes
  have hspace : ¬isKeyByte Ascii.space = true := by decide
  have hblank : (Ascii.space :: s).dropWhile Cursor.isSpace = s := by
    rw [List.dropWhile_cons_of_pos (by decide)]
    cases s with
    | nil => rfl
    | cons b s =>
        refine List.dropWhile_cons_of_neg fun hb => ?_
        rw [value?_of_isBlank (by rw [hb, Bool.true_or])] at hvalue
        cases hvalue
  rw [assignment?, List.takeWhile_append_of_pos hbytes, List.takeWhile_cons_of_neg hspace,
    List.append_nil, if_neg hne, List.dropWhile_append_of_pos hbytes,
    List.dropWhile_cons_of_neg hspace, List.dropWhile_cons_of_pos (by decide),
    List.dropWhile_cons_of_neg (by decide), valueAfter?, if_pos rfl, hblank, hvalue]
  rfl

/-- The same of the statement. -/
theorem statement?_of_value? {key s rest : Bytes} {node : Node} (hkey : IsBareKey key)
    (hvalue : value? s = some (node, rest)) :
    statement? (key ++ ascii " = " ++ s) = some (.assign key node, rest) := by
  have hassign := assignment?_of_value? hkey hvalue
  have hequals : ascii " = " = [Ascii.space, Ascii.equals, Ascii.space] := by decide
  rw [hequals, List.append_assoc]
  obtain ⟨b, key, rfl⟩ := List.exists_cons_of_ne_nil hkey.1
  have hb : b ≠ Ascii.openBracket := ne_of_class (first_of_isBareKey hkey) _ (by decide)
  rw [List.cons_append, statement?, if_neg hb]
  exact congrArg (Option.map _) hassign

/-- **A statement** is read back, up to the end of its line. -/
theorem statement?_write {st : Statement} (h : st.Writable) (rest : Bytes) :
    statement? (st.write ++ rest) = some (st, Ascii.lf :: rest) := by
  cases st with
  | header path =>
      obtain ⟨hne, hpath⟩ := h
      rw [Statement.write, List.append_assoc, List.cons_append, statement?, if_pos rfl]
      exact congrArg (Option.map _) (header?_write hne hpath (Ascii.lf :: rest))
  | assign key node =>
      obtain ⟨hkey, hnode⟩ := h
      rw [Statement.write, List.append_assoc, List.append_assoc]
      exact statement?_of_value? hkey (value?_write hnode rfl rest)

/-- Nothing is skipped before a key. -/
theorem IsBareKey.afterBlank_append {key : Bytes} (h : IsBareKey key) (rest : Bytes) :
    afterBlank (key ++ rest) = key ++ rest := by
  obtain ⟨b, s, rfl⟩ := List.exists_cons_of_ne_nil h.1
  have hne : ∀ b', isKeyByte b' = false → b ≠ b' := ne_of_class (first_of_isBareKey h)
  refine afterBlank_cons_of_not ?_ ?_ (hne _ (by decide)) _
  · simp [Cursor.isSpace, hne Ascii.space (by decide), hne Ascii.tab (by decide)]
  · simp [Cursor.isLineEnd, hne Ascii.lf (by decide), hne Ascii.cr (by decide)]

/-- Nothing is skipped before a statement. -/
theorem Statement.Writable.afterBlank_write {st : Statement} (h : st.Writable) (rest : Bytes) :
    afterBlank (st.write ++ rest) = st.write ++ rest := by
  cases st with
  | header path => exact afterBlank_cons_of_not rfl rfl (by decide) _
  | assign key node =>
      simp only [Statement.write, List.append_assoc]
      exact h.1.afterBlank_append _

/-- **Statements** are read back. -/
theorem script_writeAll {sts : List Statement} (h : ∀ st ∈ sts, st.Writable) :
    Script (afterBlank (writeAll sts)) sts := by
  induction sts with
  | nil => exact .nil
  | cons st sts ih =>
      obtain ⟨hst, hsts⟩ := List.forall_mem_cons.mp h
      have hblank : afterBlank (writeAll (st :: sts)) = st.write ++ writeAll sts :=
        hst.afterBlank_write (writeAll sts)
      rw [hblank]
      exact .cons (statement?_write hst (writeAll sts)) rfl (ih hsts)

end Toml

end DoctypeProbe
