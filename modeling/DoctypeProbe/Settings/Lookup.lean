import DoctypeProbe.Failure
import DoctypeProbe.Toml.Table

/-!
# Typed Lookups

A setting is looked up by its dotted key and by the type it is to have. A value of another
type is not found, except that an integer is found as a floating-point number as well.
-/

namespace DoctypeProbe

namespace Toml.Table

/-- The integer at a dotted key. -/
def integer? (t : Table) (key : Bytes) : Option Int64 :=
  match t.atPath key with
  | some (.integer n) => some n
  | _ => none

/-- The truth value at a dotted key. -/
def boolean? (t : Table) (key : Bytes) : Option Bool :=
  match t.atPath key with
  | some (.boolean b) => some b
  | _ => none

/-- The text at a dotted key. -/
def string? (t : Table) (key : Bytes) : Option Bytes :=
  match t.atPath key with
  | some (.string s) => some s
  | _ => none

/-- The floating-point number at a dotted key; an integer is converted. -/
def float? (t : Table) (key : Bytes) : Option Binary64 :=
  match t.atPath key with
  | some (.float x) => some x
  | some (.integer n) => some (Binary64.ofInt n)
  | _ => none

/-- The texts of a list of values, if all of them are texts. -/
def texts? : List Node → Option (List Bytes)
  | [] => some []
  | .string s :: items => (texts? items).map (s :: ·)
  | _ :: _ => none

/-- The texts in an array at a dotted key. An item that is not a text is an error. -/
def strings? (t : Table) (key : Bytes) : Except SettingsError (Option (List Bytes)) :=
  match t.atPath key with
  | some (.array items) =>
    match texts? items with
    | some texts => .ok (some texts)
    | none => .error (.itemNotString key)
  | _ => .ok none

end Toml.Table

end DoctypeProbe
