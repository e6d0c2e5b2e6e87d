/-
# Records and variants

How structured data is laid out in MessagePack values.  A record is a map from the names of its
fields, and a variant a map from its name to its content, or the name alone if it has none.

Reading is lenient.  The fields of a record may come in any order and with others between, which
are passed over; a record may also be an array of its fields in order, and a field or a variant may
be named by its index.  A field given twice, or an array of another length, is refused.
-/

import Ndf.MessagePack.Value

namespace Ndf
namespace MessagePack

/-- A text as bytes. -/
def utf8 (text : String) : Bytes := text.toUTF8.data.toList

namespace Value

/-- A text. -/
def text (s : String) : Value := .str (utf8 s)

/-- A record with the given names and contents of its fields. -/
def record (names : List String) (fields : List Value) : Value :=
  .map ((names.map text).zip fields)

/-- A variant with content. -/
def variant (name : String) (content : Value) : Value := .map [(text name, content)]

/-- Content that may be missing. -/
def option {α : Type} (f : α → Value) : Option α → Value
  | none => .nil
  | some a => f a

end Value

/-- What a key stands for, given the names that it can have. -/
inductive Key where
  | known (index : Nat)
  | unknown
  | invalid
deriving DecidableEq, Repr

/-- Looks a key up: a name, as text or bytes, or an index. -/
def Key.of (names : List String) : Value → Key
  | .str bytes | .bin bytes =>
    match names.findIdx? fun n => utf8 n == bytes with
    | some i => .known i
    | none => .unknown
  | .uint n => if n < names.length then .known n else .unknown
  | _ => .invalid

mutual

/-- Whether the arrays, maps and extensions of a value are nested at most so many levels deep. -/
def fits : Nat → Value → Bool
  | n, .array items => (0 < n : Bool) && fitsItems (n - 1) items
  | n, .map entries => (0 < n : Bool) && fitsEntries (n - 1) entries
  | n, .ext .. => 0 < n
  | _, _ => true

/-- Whether all values fit. -/
def fitsItems : Nat → List Value → Bool
  | _, [] => true
  | n, v :: rest => fits n v && fitsItems n rest

/-- Whether all keys and values fit. -/
def fitsEntries : Nat → List (Value × Value) → Bool
  | _, [] => true
  | n, (k, v) :: rest => fits n k && fits n v && fitsEntries n rest

end

/-- Sorts the entries of a map into the slots of a record's fields.  `skip` says whether the content
of an unknown field can be passed over. -/
def fillSlots (skip : Value → Bool) (names : List String) :
    List (Value × Value) → List (Option Value) → Option (List (Option Value))
  | [], slots => some slots
  | (key, v) :: rest, slots =>
    match Key.of names key with
    | .known i =>
      match slots[i]? with
      | some none => fillSlots skip names rest (slots.set i (some v))
      | _ => none
    | .unknown => if skip v then fillSlots skip names rest slots else none
    | .invalid => none

/-- The contents of a record's fields in order; a field that is not given has none. -/
def readRecord (skip : Value → Bool) (names : List String) : Value → Option (List (Option Value))
  | .array items => if items.length = names.length then some (items.map some) else none
  | .map entries => fillSlots skip names entries (names.map fun _ => none)
  | _ => none

/-- The name of a variant and its content, if it has any. -/
def readVariant (names : List String) (v : Value) : Option (String × Option Value) :=
  match v with
  | .map [(key, content)] =>
    match Key.of names key with
    | .known i => names[i]?.map fun n => (n, some content)
    | _ => none
  | .map _ => none
  | key =>
    match Key.of names key with
    | .known i => names[i]?.map fun n => (n, none)
    | _ => none

/-- The element of a table that a variant without content names. -/
def readUnit {α : Type} (table : List (String × α)) (v : Value) : Option α :=
  match readVariant (table.map Prod.fst) v with
  | some (name, none) => table.lookup name
  | some (name, some .nil) => table.lookup name
  | _ => none

/-- The values of an array. -/
def readItems {α : Type} (item : Value → Option α) : List Value → Option (List α)
  | [] => some []
  | v :: rest => do
    let a ← item v
    let as ← readItems item rest
    some (a :: as)

/-- An array. -/
def readArray {α : Type} (item : Value → Option α) : Value → Option (List α)
  | .array items => readItems item items
  | _ => none

/-- A text, given as such or as bytes. -/
def readText : Value → Option String
  | .str bytes | .bin bytes => String.fromUTF8? ⟨bytes.toArray⟩
  | _ => none

/-- A natural number below a limit, in an unsigned or signed form. -/
def readNat (limit : Nat) : Value → Option Nat
  | .uint n => if n < limit then some n else none
  | .sint i => if 0 ≤ i ∧ i.toNat < limit then some i.toNat else none
  | _ => none

/-- A truth value. -/
def readBool : Value → Option Bool
  | .bool b => some b
  | _ => none

/-- A field that may be missing or nil. -/
def readOption {α : Type} (content : Value → Option α) : Option Value → Option (Option α)
  | none | some .nil => some none
  | some v => (content v).map some

end MessagePack
end Ndf
