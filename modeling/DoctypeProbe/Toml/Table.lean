import DoctypeProbe.Keyed
import DoctypeProbe.Number.Binary64

/-!
# Tables

A settings document denotes a table: values and further tables by key. Tables that hold the
same are equal, in whatever order the document gives their entries.

A dotted path leads through nested tables. It is taken apart at its dots, and a dot at its
end adds nothing.

## Main results

* `Table.find?` — what stands at the end of a path of keys.
* `Table.openSection` — makes sure that tables stand all along a path.
* `Table.assign` — puts a value below the table at a path.
-/

namespace DoctypeProbe

namespace Toml

/-- What can stand at a key. -/
inductive Node where
  /-- A text. -/
  | string (value : Bytes)
  /-- An integer of 64 bits. -/
  | integer (value : Int64)
  /-- A floating-point number. -/
  | float (value : Binary64)
  /-- A truth value. -/
  | boolean (value : Bool)
  /-- A list of values. -/
  | array (items : List Node)
  /-- A table. -/
  | table (entries : List (Bytes × Node))
deriving Repr, Inhabited

/-- Entries by key. -/
abbrev Table := Keyed Node

namespace Table

/-- Whether there is an entry at a key. -/
def hasKey (t : Table) (key : Bytes) : Bool := (t.get? key).isSome

/-- The keys of a dotted path. -/
def keysOf (path : Bytes) : List Bytes := path.fields Ascii.dot

/-- What stands at the end of a path of keys; nothing stands at the empty path. -/
def find? (t : Table) : List Bytes → Option Node
  | [] => none
  | [key] => t.get? key
  | key :: keys =>
    match t.get? key with
    | some (.table t') => find? t' keys
    | _ => none

/-- What stands at a dotted path. -/
def atPath (t : Table) (path : Bytes) : Option Node := t.find? (keysOf path)

/-- Makes sure that tables stand all along a path of keys, adding those that are missing. If
something else stands on the way, answers its key. -/
def openSection (t : Table) : List Bytes → Except Bytes Table
  | [] => .ok t
  | key :: keys =>
    match t.get? key with
    | none => (openSection [] keys).map fun t' => t.insert key (.table t')
    | some (.table t') => (openSection t' keys).map fun t'' => t.insert key (.table t'')
    | some _ => .error key

/-- Puts a node at a key of the table at the end of a path. A path that does not lead to a
table changes nothing. -/
def assign (t : Table) (path : List Bytes) (key : Bytes) (node : Node) : Table :=
  match path with
  | [] => t.insert key node
  | k :: path =>
    match t.get? k with
    | some (.table t') => t.insert k (.table (assign t' path key node))
    | _ => t

end Table

end Toml

end DoctypeProbe
