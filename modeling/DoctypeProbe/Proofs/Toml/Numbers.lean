import DoctypeProbe.Proofs.Number.Decimal
import DoctypeProbe.Proofs.Toml.Effects
import DoctypeProbe.Proofs.Toml.Writing
import Mathlib.Data.List.Forall2

/-!
# Numbers in Settings Documents

A number token is what stands in a document where a value begins with a sign or a digit: all that
can be part of a numeral, without the underscores. The reader converts an opening of it that is a
numeral, and takes no notice of what is left. Of an integer nothing can be left. But a token with a
point or an exponent marker in it may go on behind its longest numeral, and then the rest is
dropped: `1.2.3` is read as `1.2`.

Which tokens a document has is said by `Tokens`, along the reading of its values, and by
`DocumentTokens` along its statements.

## Main results

* `Toml.readsLongest_of_number?`: a token is read as its longest numeral.
* `Toml.number_tokens`: tokens and the numbers that are stored for them, in a whole document.
* `Toml.not_isNumeral_versionSample`: an accepted document with a token that is no numeral.
-/

namespace DoctypeProbe

namespace Toml

open Numeral

/-! ### Tokens -/

/-- The first bytes of numbers. -/
def beginsNumber (b : Byte) : Bool := b = Ascii.plus || b = Ascii.minus || Ascii.isDigit b

/-- The number token at a text whose first byte is `b`. -/
def tokenAt (b : Byte) (s : Bytes) : Bytes :=
  b :: (numeralBody b s).filter (· != Ascii.underscore)

/-- Whether a token has a point or an exponent marker in it. -/
def isFloatToken (token : Bytes) : Bool :=
  token.any fun b => b == Ascii.dot || Ascii.lower b == 0x65

/-- A token that is in its entirety a numeral. -/
def IsNumeral (token : Bytes) : Prop :=
  (∃ n, SpellsInteger token n) ∨ ∃ d, SpellsDecimal token d

theorem IsNumeral.decimal {token : Bytes} (h : IsNumeral token) : ∃ d, SpellsDecimal token d := by
  rcases h with ⟨n, hn⟩ | hd
  · exact hn.decimal
  · exact hd

/-- The number that a token denotes, if all of it is a numeral. -/
inductive Denotes : Bytes → Node → Prop
  | integer {token : Bytes} {n : Int} : SpellsInteger token n → fitsInt64 n = true →
      Denotes token (.integer (Int64.ofInt n))
  | float {token : Bytes} {d : Decimal} {x : Binary64} : isFloatToken token = true →
      SpellsDecimal token d → Binary64.ofDecimal? d = some x → Denotes token (.float x)

/-- How a token is read: an integer to its end, and any other as its longest opening that is a
numeral. -/
inductive ReadsLongest : Bytes → Node → Prop
  | integer {token : Bytes} {n : Int} : SpellsInteger token n → fitsInt64 n = true →
      ReadsLongest token (.integer (Int64.ofInt n))
  | float {numeral dropped : Bytes} {d : Decimal} {x : Binary64} :
      isFloatToken (numeral ++ dropped) = true → SpellsDecimal numeral d →
      (∀ longer, longer <+: numeral ++ dropped → (∃ d', SpellsDecimal longer d') →
        longer <+: numeral) →
      Binary64.ofDecimal? d = some x → ReadsLongest (numeral ++ dropped) (.float x)

/-- **A token is read whole** exactly if all of it is a numeral. -/
theorem ReadsLongest.denotes_iff {token : Bytes} {node : Node} (h : ReadsLongest token node) :
    Denotes token node ↔ IsNumeral token := by
  constructor
  · intro hd
    cases hd with
    | integer hn _ => exact Or.inl ⟨_, hn⟩
    | float _ hd _ => exact Or.inr ⟨_, hd⟩
  · intro hn
    cases h with
    | integer hs hfits => exact .integer hs hfits
    | @float numeral dropped d x hfloat hs hlongest hx =>
        -- the whole token is an opening of itself, so nothing is dropped
        have hle := (hlongest _ List.prefix_rfl hn.decimal).length_le
        have hnil : dropped = [] := by
          rw [List.length_append] at hle
          exact List.length_eq_zero_iff.mp (by omega)
        rw [hnil, List.append_nil] at hfloat ⊢
        exact .float hfloat hs hx

/-- **A token is all numeral** exactly if nothing is left when a number has been read from it. -/
theorem ReadsLongest.isNumeral_iff {token : Bytes} {node : Node} (h : ReadsLongest token node) :
    IsNumeral token ↔ afterDecimal token = [] := by
  constructor
  · intro hn
    obtain ⟨d, hd⟩ := hn.decimal
    exact hd.afterDecimal_eq_nil
  · intro hrest
    cases h with
    | integer hs _ => exact Or.inl ⟨_, hs⟩
    | @float numeral dropped d x _ hs _ _ =>
        obtain ⟨d', hd'⟩ := Option.isSome_iff_exists.mp (hs.isSome_decimal? dropped)
        obtain ⟨whole, htoken, hwhole⟩ := exists_spellsDecimal hd'
        rw [hrest, List.append_nil] at htoken
        exact Or.inr ⟨d', htoken ▸ hwhole⟩

/-- What a token without points and markers goes on with is digits. -/
theorem isDigits_body {last : Byte} (hlast : Ascii.lower last ≠ 0x65) (s : Bytes)
    (h : ∀ b ∈ (numeralBody last s).filter (· != Ascii.underscore),
      (b == Ascii.dot || Ascii.lower b == 0x65) = false) :
    IsDigits ((numeralBody last s).filter (· != Ascii.underscore)) := by
  fun_induction numeralBody last s with
  | case1 => exact List.forall_mem_nil _
  | case2 last s ih =>
      rw [List.filter_cons_of_neg (by simp)] at h ⊢
      exact ih hlast h
  | case3 last b s hb hbyte ih =>
      have hkeep : (b :: numeralBody b s).filter (· != Ascii.underscore) =
          b :: (numeralBody b s).filter (· != Ascii.underscore) :=
        List.filter_cons_of_pos (by simpa using hb)
      rw [hkeep] at h ⊢
      obtain ⟨hmarker, hrest⟩ := List.forall_mem_cons.mp h
      have hdigit : Ascii.isDigit b = true := by
        rw [Bool.or_assoc, hmarker, Bool.or_false] at hbyte
        exact hbyte
      exact List.forall_mem_cons.mpr ⟨hdigit, ih (not_marker_iff.mp hmarker).2 hrest⟩
  | case4 last b s hb hbyte hsign ih =>
      rw [Bool.and_eq_true, beq_iff_eq] at hsign
      exact absurd hsign.2 hlast
  | case5 => exact List.forall_mem_nil _

theorem beginsNumber_cases {b : Byte} (hb : beginsNumber b = true) :
    b = Ascii.plus ∨ b = Ascii.minus ∨ Ascii.isDigit b = true := by
  simpa [beginsNumber, or_assoc] using hb

/-- A token without points and markers is a sign, which may be missing, and digits. -/
theorem sign_tokenAt {b : Byte} {s : Bytes} (hb : beginsNumber b = true)
    (hfloat : isFloatToken (tokenAt b s) = false) :
    (tokenAt b s).dropWhile Ascii.isSpace = tokenAt b s ∧ IsDigits (sign (tokenAt b s)).2 := by
  have hnone : ∀ x ∈ tokenAt b s, (x == Ascii.dot || Ascii.lower x == 0x65) = false := fun x hx =>
    Bool.eq_false_iff.mpr (List.any_eq_false.mp hfloat x hx)
  obtain ⟨hmarker, hrest⟩ := List.forall_mem_cons.mp hnone
  have hbody := isDigits_body (not_marker_iff.mp hmarker).2 s hrest
  rcases beginsNumber_cases hb with rfl | rfl | hdigit
  · exact ⟨rfl, hbody⟩
  · exact ⟨rfl, hbody⟩
  · obtain ⟨hspace, hsign⟩ := sign_of_isDigit hdigit
      ((numeralBody b s).filter (· != Ascii.underscore))
    refine ⟨hspace, ?_⟩
    rw [tokenAt, hsign]
    exact List.forall_mem_cons.mpr ⟨hdigit, hbody⟩

/-- An integer token is read to its end. -/
theorem spellsInteger_of_integer? {b : Byte} {s rest : Bytes} {n : Int}
    (hb : beginsNumber b = true) (hfloat : isFloatToken (tokenAt b s) = false)
    (h : integer? (tokenAt b s) = some (n, rest)) : SpellsInteger (tokenAt b s) n := by
  obtain ⟨hspace, hdigits⟩ := sign_tokenAt hb hfloat
  have hrest : rest = [] := by
    by_cases hne : (sign (tokenAt b s)).2 = []
    · rw [integer?, hspace] at h
      simp [hne] at h
    · rw [integer?_of_sign hspace rfl hne hdigits] at h
      exact (Prod.mk.inj (Option.some.inj h)).2.symm
  obtain ⟨numeral, htoken, hs⟩ := exists_spellsInteger hspace h
  rw [hrest, List.append_nil] at htoken
  exact htoken ▸ hs

/-- **A token is read as its longest numeral.** -/
theorem readsLongest_of_number? {b : Byte} {s : Bytes} {node : Node} (hb : beginsNumber b = true)
    (h : number? (tokenAt b s) = some node) : ReadsLongest (tokenAt b s) node := by
  rw [number?] at h
  split_ifs at h with hfloat
  · obtain ⟨x, hx, rfl⟩ := Option.map_eq_some_iff.mp h
    obtain ⟨d, hd, hx⟩ := Option.bind_eq_some_iff.mp hx
    obtain ⟨numeral, htoken, hs⟩ := exists_spellsDecimal hd
    rw [htoken]
    refine .float (htoken ▸ hfloat) hs ?_ hx
    rintro longer ⟨rest, heq⟩ ⟨d', hd'⟩
    obtain ⟨more, hmore⟩ := hd'.afterDecimal_suffix rest
    rw [heq, ← htoken] at hmore
    rw [← hmore, ← List.append_assoc] at heq
    exact ⟨more, List.append_cancel_right heq⟩
  · cases hi : integer? (tokenAt b s) with
    | none =>
        rw [hi] at h
        cases h
    | some r =>
        obtain ⟨n, rest⟩ := r
        rw [hi] at h
        dsimp only at h
        split_ifs at h with hfits
        cases h
        exact .integer (spellsInteger_of_integer? hb (Bool.eq_false_iff.mpr hfloat) hi) hfits

/-! ### Values -/

mutual

/-- The numbers in a value, in order. -/
def Node.numbers : Node → List Node
  | .integer n => [.integer n]
  | .float x => [.float x]
  | .array items => numbersOf items
  | _ => []

/-- The numbers in a list of values, in order. -/
def numbersOf : List Node → List Node
  | [] => []
  | node :: nodes => node.numbers ++ numbersOf nodes

end

/-- What is read at a text: a value, or the items of an array. -/
inductive Place where
  /-- A value. -/
  | value
  /-- The items of an array. -/
  | items

/-- The number tokens that are met in reading a value, or the items of an array.

* `number`, `other`, `array`: a value is a number token, or has none, or is an array.
* `closed`: there are no more items.
* `last`, `more`: there is an item, and a bracket or a comma and more items behind it. -/
inductive Tokens : Place → Bytes → List Bytes → Prop
  | number {b : Byte} {s : Bytes} : beginsNumber b = true → Tokens .value (b :: s) [tokenAt b s]
  | other {b : Byte} {s : Bytes} : beginsNumber b = false → b ≠ Ascii.openBracket →
      Tokens .value (b :: s) []
  | array {s : Bytes} {tokens : List Bytes} : Tokens .items (afterBlank s) tokens →
      Tokens .value (Ascii.openBracket :: s) tokens
  | closed {s : Bytes} : Tokens .items (Ascii.closeBracket :: s) []
  | last {b : Byte} {s rest s' : Bytes} {node : Node} {tokens : List Bytes} :
      b ≠ Ascii.closeBracket → Tokens .value (b :: s) tokens →
      value? (b :: s) = some (node, rest) → afterBlank rest = Ascii.closeBracket :: s' →
      Tokens .items (b :: s) tokens
  | more {b : Byte} {s rest s' : Bytes} {node : Node} {tokens tokens' : List Bytes} :
      b ≠ Ascii.closeBracket → Tokens .value (b :: s) tokens →
      value? (b :: s) = some (node, rest) → afterBlank rest = Ascii.comma :: s' →
      Tokens .items (afterBlank s') tokens' → Tokens .items (b :: s) (tokens ++ tokens')

/-- What is read at a place has the numbers for which the tokens stand. -/
def Place.Stores : Place → Bytes → List Bytes → Prop
  | .value, s, tokens => ∀ node rest, value? s = some (node, rest) →
      List.Forall₂ ReadsLongest tokens node.numbers
  | .items, s, tokens => ∀ nodes rest, items? s = some (nodes, rest) →
      List.Forall₂ ReadsLongest tokens (numbersOf nodes)

/-- A number is all that there is in it. -/
theorem numbers_of_number? {token : Bytes} {node : Node} (h : number? token = some node) :
    node.numbers = [node] := by
  rcases number?_cases h with ⟨n, rfl⟩ | ⟨x, rfl⟩ <;> rfl

/-- Any other value that is not an array has no numbers in it. -/
theorem numbers_of_scalar? {b : Byte} {s rest : Bytes} {node : Node}
    (hb : beginsNumber b = false) (h : scalar? b s = some (node, rest)) : node.numbers = [] := by
  rcases scalar?_cases h with ⟨text, rfl⟩ | ⟨v, rfl⟩ | ⟨hbegins, -⟩
  · rfl
  · rfl
  · exact absurd hbegins (Bool.eq_false_iff.mp hb)

/-- **The numbers in a value** are those for which its tokens stand. Induction on the tokens. -/
theorem Tokens.stores {place : Place} {s : Bytes} {tokens : List Bytes}
    (h : Tokens place s tokens) : place.Stores s tokens := by
  induction h with
  | @number b s hb =>
      intro node rest hv
      rw [value?_number hb] at hv
      obtain ⟨v, hn, he⟩ := Option.map_eq_some_iff.mp hv
      cases he
      rw [numbers_of_number? hn]
      exact .cons (readsLongest_of_number? hb hn) .nil
  | other hb hne =>
      intro node rest hv
      rw [value?_cons, if_neg hne] at hv
      rw [numbers_of_scalar? hb hv]
      exact .nil
  | array _ ih =>
      intro node rest hv
      rw [value?_cons, if_pos rfl] at hv
      obtain ⟨nodes, hitems, rfl⟩ := exists_of_map hv
      exact ih nodes rest hitems
  | closed =>
      intro nodes rest hitems
      rw [items?_cons, if_pos rfl] at hitems
      cases hitems
      exact .nil
  | @last b s rest s' node tokens hb _ hv hrest ih =>
      intro nodes rest' hitems
      rw [items?_of_item hb hv, hrest, itemsAfter?, if_neg (by decide), if_pos rfl] at hitems
      cases hitems
      rw [numbersOf, numbersOf, List.append_nil]
      exact ih node rest hv
  | @more b s rest s' node tokens tokens' hb _ hv hrest _ ih ih' =>
      intro nodes rest' hitems
      rw [items?_of_item hb hv, hrest, itemsAfter?, if_pos rfl] at hitems
      obtain ⟨nodes', hmore, rfl⟩ := exists_of_map hitems
      rw [numbersOf]
      exact List.rel_append (ih node rest hv) (ih' nodes' rest' hmore)

/-- **Every value that is read** has its tokens, and so do items. -/
theorem exists_tokens (s : Bytes) :
    ((value? s).isSome → ∃ tokens, Tokens .value s tokens) ∧
      ((items? s).isSome → ∃ tokens, Tokens .items s tokens) := by
  refine readingInduction
    (P := fun s => (value? s).isSome → ∃ tokens, Tokens .value s tokens)
    (Q := fun s => (items? s).isSome → ∃ tokens, Tokens .items s tokens)
    ?_ ?_ (fun s ih => ?_) (fun b s hb => ?_) (fun b s hv ih => ?_) s
  · simp
  · simp
  · rw [value?_cons, if_pos rfl, Option.isSome_map]
    exact fun h => (ih h).imp fun _ => .array
  · intro _
    cases hn : beginsNumber b with
    | true => exact ⟨_, .number hn⟩
    | false => exact ⟨_, .other hn hb⟩
  · by_cases hclose : b = Ascii.closeBracket
    · exact fun _ => ⟨[], hclose ▸ .closed⟩
    · cases hread : value? (b :: s) with
      | none =>
          rw [items?_cons, if_neg hclose, hread]
          simp
      | some read =>
          obtain ⟨node, rest⟩ := read
          obtain ⟨tokens, htokens⟩ := hv (by rw [hread]; rfl)
          rw [items?_of_item hclose hread]
          cases hrest : afterBlank rest with
          | nil => simp [itemsAfter?]
          | cons b' s' =>
              rw [itemsAfter?]
              split_ifs with hcomma hbracket
              · rw [Option.isSome_map]
                intro hmore
                obtain ⟨tokens', htokens'⟩ := ih node rest s' hread (hcomma ▸ hrest) hmore
                exact ⟨_, .more hclose htokens hread (hcomma ▸ hrest) htokens'⟩
              · exact fun _ => ⟨_, .last hclose htokens hread (hbracket ▸ hrest)⟩
              · simp

/-! ### Documents -/

/-- The numbers in the value of an assignment. -/
def Statement.numbers : Statement → List Node
  | .header _ => []
  | .assign _ node => node.numbers

/-- Where the value of an assignment stands. -/
def valueText (s : Bytes) : Bytes :=
  (((s.dropWhile isKeyByte).dropWhile Cursor.isSpace).drop 1).dropWhile Cursor.isSpace

/-- The number tokens that are met in reading the statements at a text. -/
inductive DocumentTokens : Bytes → List Bytes → Prop
  | nil : DocumentTokens [] []
  | header {s rest tail path : Bytes} {tokens : List Bytes} :
      statement? s = some (.header path, rest) → lineEnd? rest = some tail →
      DocumentTokens (afterBlank tail) tokens → DocumentTokens s tokens
  | assign {s rest tail key : Bytes} {node : Node} {tokens tokens' : List Bytes} :
      statement? s = some (.assign key node, rest) → Tokens .value (valueText s) tokens →
      lineEnd? rest = some tail → DocumentTokens (afterBlank tail) tokens' →
      DocumentTokens s (tokens ++ tokens')

theorem value?_of_statement? {s rest key : Bytes} {node : Node}
    (h : statement? s = some (.assign key node, rest)) :
    value? (valueText s) = some (node, rest) := by
  rcases statement?_cases h with ⟨path, he⟩ | ⟨key', node', he, ha⟩
  · cases he
  · cases he
    obtain ⟨-, -, t, ht, hv⟩ := exists_of_assignment? ha
    rw [valueText, ht]
    exact hv

/-- **The numbers in a document** are those for which its tokens stand. -/
theorem DocumentTokens.stores {s : Bytes} {tokens : List Bytes} {sts : List Statement}
    (h : DocumentTokens s tokens) (hs : Script s sts) :
    List.Forall₂ ReadsLongest tokens (sts.flatMap Statement.numbers) := by
  induction h generalizing sts with
  | nil =>
      rw [script_nil_iff.mp hs]
      exact .nil
  | header hst hl _ ih =>
      cases hs with
      | nil => cases hst
      | cons hst' hl' hr =>
          rw [hst] at hst'
          cases hst'
          rw [hl] at hl'
          cases hl'
          rw [List.flatMap_cons, Statement.numbers, List.nil_append]
          exact ih hr
  | assign hst htokens hl _ ih =>
      cases hs with
      | nil => cases hst
      | cons hst' hl' hr =>
          rw [hst] at hst'
          cases hst'
          rw [hl] at hl'
          cases hl'
          exact List.rel_append (htokens.stores _ _ (value?_of_statement? hst)) (ih hr)

/-- A document that is read has its tokens. -/
theorem Script.exists_tokens {s : Bytes} {sts : List Statement} (h : Script s sts) :
    ∃ tokens, DocumentTokens s tokens := by
  induction h with
  | nil => exact ⟨[], .nil⟩
  | @cons s rest tail st sts hst hl _ ih =>
      obtain ⟨tokens', htokens'⟩ := ih
      cases st with
      | header path => exact ⟨tokens', .header hst hl htokens'⟩
      | assign key node =>
          have hsome : (value? (valueText s)).isSome := by
            rw [value?_of_statement? hst]
            rfl
          obtain ⟨tokens, htokens⟩ := (Toml.exists_tokens (valueText s)).1 hsome
          exact ⟨_, .assign hst htokens hl htokens'⟩

/-- All tokens are read whole if nothing is left of any. -/
theorem forall₂_denotes_iff {tokens : List Bytes} {nodes : List Node}
    (h : List.Forall₂ ReadsLongest tokens nodes) :
    List.Forall₂ (fun token node => IsNumeral token ∧ Denotes token node) tokens nodes ↔
      ∀ token ∈ tokens, afterDecimal token = [] := by
  induction h with
  | nil => simp
  | cons hr _ ih =>
      rw [List.forall₂_cons, ih, hr.denotes_iff, and_self, hr.isNumeral_iff, List.forall_mem_cons]

/-- **The numbers of an accepted document.** Its number tokens stand for the numbers in its values,
one for one: an integer for all of it, and any other for its longest opening that is a numeral. So
all tokens are numerals, and the values are those that they denote, exactly if nothing is left of
any token behind the numeral that it begins with. -/
theorem number_tokens {text : Bytes} {table : Table} (h : parse text = .ok table) :
    ∃ sts, Script (afterBlank text) sts ∧ (∃ tokens, DocumentTokens (afterBlank text) tokens) ∧
      ∀ tokens, DocumentTokens (afterBlank text) tokens →
        List.Forall₂ ReadsLongest tokens (sts.flatMap Statement.numbers) ∧
        (List.Forall₂ (fun token node => IsNumeral token ∧ Denotes token node) tokens
            (sts.flatMap Statement.numbers) ↔
          ∀ token ∈ tokens, afterDecimal token = []) := by
  obtain ⟨sts, state, hscript, -, -⟩ := parse_eq_ok_iff.mp h
  refine ⟨sts, hscript, hscript.exists_tokens, fun tokens htokens => ?_⟩
  have hstores := htokens.stores hscript
  exact ⟨hstores, forall₂_denotes_iff hstores⟩

/-! ### Samples -/

/-- A number is the value for which its token stands. -/
theorem value?_of_number? {b : Byte} {s : Bytes} {node : Node} (hb : beginsNumber b = true)
    (h : number? (tokenAt b s) = some node) :
    value? (b :: s) = some (node, s.drop (numeralBody b s).length) := by
  rw [tokenAt] at h
  rw [value?_number hb, h]
  rfl

/-- A float token of which a decimal number is read. -/
theorem number?_of_decimal? {token : Bytes} {d : Decimal} {x : Binary64}
    (hfloat : isFloatToken token = true) (hd : decimal? token = some d)
    (hx : Binary64.ofDecimal? d = some x) : number? token = some (.float x) := by
  have hcond : (token.any fun b => b == Ascii.dot || Ascii.lower b == 0x65) = true := hfloat
  rw [number?, if_pos hcond, hd, Option.bind_some, hx]
  rfl

/-- An integer token of which an integer is read. -/
theorem number?_of_integer? {token rest : Bytes} {n : Int} (hfloat : isFloatToken token = false)
    (hn : integer? token = some (n, rest)) (hfits : fitsInt64 n = true) :
    number? token = some (.integer (Int64.ofInt n)) := by
  have hcond : ¬(token.any fun b => b == Ascii.dot || Ascii.lower b == 0x65) = true :=
    Bool.eq_false_iff.mp hfloat
  rw [number?, if_neg hcond, hn]
  exact if_pos hfits

/-- A document with two number tokens in an array. -/
def listedSample : Bytes := ascii "a = [1_2, -2.5e3]\n"

/-- The numbers of the sample. -/
def listedNumbers : List Node := [.integer (Int64.ofInt 12), .float ⟨0xC0A3880000000000⟩]

theorem number_tokens_listedSample :
    parse listedSample = .ok [(ascii "a", .array listedNumbers)] ∧
      DocumentTokens (afterBlank listedSample) [ascii "12", ascii "-2.5e3"] ∧
      List.Forall₂ (fun token node => IsNumeral token ∧ Denotes token node)
        [ascii "12", ascii "-2.5e3"] listedNumbers := by
  have hd : decimal? (ascii "-2.5e3") = some ⟨true, 25, 2⟩ := by decide +kernel
  have hx : Binary64.ofDecimal? ⟨true, 25, 2⟩ = some ⟨0xC0A3880000000000⟩ := by decide +kernel
  have hfloat : number? (ascii "-2.5e3") = some (.float ⟨0xC0A3880000000000⟩) :=
    number?_of_decimal? (by decide +kernel) hd hx
  have hn : integer? (ascii "12") = some (12, []) := by decide +kernel
  have hinteger : number? (ascii "12") = some (.integer (Int64.ofInt 12)) :=
    number?_of_integer? (by decide +kernel) hn (by decide)
  have hfirst : value? (ascii "1_2, -2.5e3]\n") =
      some (.integer (Int64.ofInt 12), ascii ", -2.5e3]\n") :=
    value?_of_number? (b := 0x31) rfl hinteger
  have hsecond : value? (ascii "-2.5e3]\n") =
      some (.float ⟨0xC0A3880000000000⟩, ascii "]\n") :=
    value?_of_number? (b := Ascii.minus) rfl hfloat
  have hlast : items? (ascii "-2.5e3]\n") =
      some ([.float ⟨0xC0A3880000000000⟩], [Ascii.lf]) :=
    items?_of_item (b := Ascii.minus) (by decide) hsecond
  have hitems : items? (ascii "1_2, -2.5e3]\n") = some (listedNumbers, [Ascii.lf]) :=
    (items?_of_item (b := 0x31) (by decide) hfirst).trans (congrArg (Option.map _) hlast)
  have hvalue : value? (ascii "[1_2, -2.5e3]\n") = some (.array listedNumbers, [Ascii.lf]) :=
    (value?_cons Ascii.openBracket (ascii "1_2, -2.5e3]\n")).trans
      (congrArg (Option.map _) hitems)
  have hkey : IsBareKey (ascii "a") := by decide
  have hstatement : statement? listedSample =
      some (.assign (ascii "a") (.array listedNumbers), [Ascii.lf]) :=
    statement?_of_value? hkey hvalue
  have hscript : Script (afterBlank listedSample)
      [.assign (ascii "a") (.array listedNumbers)] := .cons hstatement rfl .nil
  have hvalues : Tokens .value (ascii "[1_2, -2.5e3]\n") [ascii "12", ascii "-2.5e3"] :=
    .array (.more (by decide) (.number rfl) hfirst rfl
      (.last (by decide) (.number rfl) hsecond rfl))
  have htokens : DocumentTokens (afterBlank listedSample) [ascii "12", ascii "-2.5e3"] :=
    .assign hstatement hvalues rfl .nil
  have hparse : parse listedSample = .ok [(ascii "a", .array listedNumbers)] :=
    parse_eq_ok_iff.mpr ⟨_, _, hscript, rfl, rfl⟩
  obtain ⟨sts, hsts, -, hall⟩ := number_tokens hparse
  obtain rfl := hsts.unique hscript
  refine ⟨hparse, htokens, (hall _ htokens).2.mpr ?_⟩
  decide +kernel

/-- A document with a token that goes on behind its numeral. -/
def versionSample : Bytes := ascii "x = 1.2.3\n"

/-- **A token of which a part is dropped**: `1.2.3` is no numeral, and the document is accepted as
if it were `1.2`. -/
theorem not_isNumeral_versionSample :
    parse versionSample = .ok [(ascii "x", .float ⟨0x3FF3333333333333⟩)] ∧
      DocumentTokens (afterBlank versionSample) [ascii "1.2.3"] ∧
      ¬IsNumeral (ascii "1.2.3") ∧ Denotes (ascii "1.2") (.float ⟨0x3FF3333333333333⟩) := by
  have hd : decimal? (ascii "1.2.3") = some ⟨false, 12, -1⟩ := by decide +kernel
  have hx : Binary64.ofDecimal? ⟨false, 12, -1⟩ = some ⟨0x3FF3333333333333⟩ := by decide +kernel
  have hnumber : number? (ascii "1.2.3") = some (.float ⟨0x3FF3333333333333⟩) :=
    number?_of_decimal? (by decide +kernel) hd hx
  have hvalue : value? (ascii "1.2.3\n") = some (.float ⟨0x3FF3333333333333⟩, [Ascii.lf]) :=
    value?_of_number? (b := 0x31) rfl hnumber
  have hkey : IsBareKey (ascii "x") := by decide
  have hstatement : statement? versionSample =
      some (.assign (ascii "x") (.float ⟨0x3FF3333333333333⟩), [Ascii.lf]) :=
    statement?_of_value? hkey hvalue
  have hscript : Script (afterBlank versionSample)
      [.assign (ascii "x") (.float ⟨0x3FF3333333333333⟩)] := .cons hstatement rfl .nil
  have hleft : afterDecimal (ascii "1.2.3") ≠ [] := by decide +kernel
  obtain ⟨numeral, htoken, hspells⟩ := exists_spellsDecimal hd
  have hnumeral : numeral = ascii "1.2" :=
    List.append_cancel_right (htoken.symm.trans (by decide +kernel))
  refine ⟨parse_eq_ok_iff.mpr ⟨_, _, hscript, rfl, rfl⟩,
    .assign hstatement (.number rfl) rfl .nil, ?_,
    .float (by decide +kernel) (hnumeral ▸ hspells) hx⟩
  intro hn
  obtain ⟨d, hd⟩ := hn.decimal
  exact hleft hd.afterDecimal_eq_nil

end Toml

end DoctypeProbe
