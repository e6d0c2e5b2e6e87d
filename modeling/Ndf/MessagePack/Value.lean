/-
# MessagePack

Values of the MessagePack format and their bytes.  Every value starts with a byte that gives its
type and, for a small value, its content or length; larger ones spell these out in big-endian
order behind it.

| first byte | value |
| --- | --- |
| `00`–`7f`, `cc`–`cf` | natural number, in the byte or in 1, 2, 4, 8 bytes |
| `e0`–`ff`, `d0`–`d3` | signed number, likewise |
| `80`–`8f`, `de`, `df` | map, the length in the byte or in 2, 4 bytes |
| `90`–`9f`, `dc`, `dd` | array, likewise |
| `a0`–`bf`, `d9`–`db` | text, the length in the byte or in 1, 2, 4 bytes |
| `c4`–`c6` | bytes, the length in 1, 2, 4 bytes |
| `c0`, `c2`, `c3` | nil, false, true |
| `ca`, `cb` | float of 4, 8 bytes |
| `d4`–`d8`, `c7`–`c9` | extension of 1, 2, 4, 8, 16 bytes, or the length in 1, 2, 4 bytes |
| `c1` | none |

`encode` writes the shortest form; `decode` reads every form and returns the bytes behind it.
-/

namespace Ndf
namespace MessagePack

/-- A sequence of bytes. -/
abbrev Bytes : Type := List UInt8

/-- A value of the format.  Texts are kept as bytes, since a reader that passes over one does not
mind whether it is UTF-8. -/
inductive Value where
  | nil
  | bool (value : Bool)
  | uint (value : Nat)
  /-- A number in one of the signed forms. -/
  | sint (value : Int)
  /-- The four or eight bytes of a floating-point number. -/
  | float (bits : Bytes)
  | str (bytes : Bytes)
  | bin (bytes : Bytes)
  | array (items : List Value)
  | map (entries : List (Value × Value))
  | ext (type : UInt8) (data : Bytes)

/-! ### Writing -/

/-- A number in so many bytes, the most significant first. -/
def bigEndian : Nat → Nat → Bytes
  | 0, _ => []
  | size + 1, n => bigEndian size (n / 0x100) ++ [UInt8.ofNat n]

/-- A type byte and a number of one, two or four bytes, whichever is enough. -/
def sized (one two four : UInt8) (n : Nat) : Bytes :=
  if n < 0x100 then one :: bigEndian 1 n
  else if n < 0x10000 then two :: bigEndian 2 n
  else four :: bigEndian 4 n

/-- A natural number. -/
def encodeUInt (n : Nat) : Bytes :=
  if n < 0x80 then [UInt8.ofNat n]
  else if n < 0x100000000 then sized 0xcc 0xcd 0xce n
  else 0xcf :: bigEndian 8 n

/-- A signed number, in two's complement if it is negative. -/
def encodeSInt (i : Int) : Bytes :=
  if -0x20 ≤ i ∧ i < 0 then [UInt8.ofNat (i + 0x100).toNat]
  else if -0x80 ≤ i ∧ i < 0x80 then 0xd0 :: bigEndian 1 (i % 0x100).toNat
  else if -0x8000 ≤ i ∧ i < 0x8000 then 0xd1 :: bigEndian 2 (i % 0x10000).toNat
  else if -0x80000000 ≤ i ∧ i < 0x80000000 then 0xd2 :: bigEndian 4 (i % 0x100000000).toNat
  else 0xd3 :: bigEndian 8 (i % 0x10000000000000000).toNat

/-- The type and length of a text. -/
def strHeader (n : Nat) : Bytes :=
  if n < 32 then [UInt8.ofNat (0xa0 + n)] else sized 0xd9 0xda 0xdb n

/-- The type and length of an array. -/
def arrayHeader (n : Nat) : Bytes :=
  if n < 16 then [UInt8.ofNat (0x90 + n)]
  else if n < 0x10000 then 0xdc :: bigEndian 2 n
  else 0xdd :: bigEndian 4 n

/-- The type and length of a map. -/
def mapHeader (n : Nat) : Bytes :=
  if n < 16 then [UInt8.ofNat (0x80 + n)]
  else if n < 0x10000 then 0xde :: bigEndian 2 n
  else 0xdf :: bigEndian 4 n

/-- The type and length of an extension. -/
def extHeader (n : Nat) : Bytes :=
  match n with
  | 1 => [0xd4]
  | 2 => [0xd5]
  | 4 => [0xd6]
  | 8 => [0xd7]
  | 16 => [0xd8]
  | n => sized 0xc7 0xc8 0xc9 n

mutual

/-- The bytes of a value. -/
def encode : Value → Bytes
  | .nil => [0xc0]
  | .bool b => [if b then 0xc3 else 0xc2]
  | .uint n => encodeUInt n
  | .sint i => encodeSInt i
  | .float bits => (if bits.length = 4 then 0xca else 0xcb) :: bits
  | .str bytes => strHeader bytes.length ++ bytes
  | .bin bytes => sized 0xc4 0xc5 0xc6 bytes.length ++ bytes
  | .array items => arrayHeader items.length ++ encodeItems items
  | .map entries => mapHeader entries.length ++ encodeEntries entries
  | .ext type data => extHeader data.length ++ type :: data

/-- The bytes of values in order. -/
def encodeItems : List Value → Bytes
  | [] => []
  | v :: rest => encode v ++ encodeItems rest

/-- The bytes of keys and values in order. -/
def encodeEntries : List (Value × Value) → Bytes
  | [] => []
  | (k, v) :: rest => encode k ++ (encode v ++ encodeEntries rest)

end

/-! ### Reading -/

/-- What is read off the front of some bytes, and the bytes behind it. -/
abbrev Read (α : Type) : Type := Bytes → Option (α × Bytes)

/-- The first so many bytes. -/
def take (n : Nat) : Read Bytes := fun bytes =>
  if n ≤ bytes.length then some (bytes.splitAt n) else none

/-- The number that some bytes spell, the most significant first. -/
def ofBigEndian (bytes : Bytes) : Nat := bytes.foldl (fun n b => n * 0x100 + b.toNat) 0

/-- A number of so many bytes. -/
def natural (size : Nat) : Read Nat := fun bytes => do
  let (digits, rest) ← take size bytes
  some (ofBigEndian digits, rest)

/-- A number of so many bytes in two's complement.  `bound` is the first natural number that takes
more bytes. -/
def signed (size bound : Nat) : Read Value := fun bytes => do
  let (n, rest) ← natural size bytes
  some (.sint (Int.bmod n bound), rest)

/-- So many values. -/
def items (value : Read Value) : Nat → Read (List Value)
  | 0, bytes => some ([], bytes)
  | n + 1, bytes => do
    let (v, bytes) ← value bytes
    let (vs, bytes) ← items value n bytes
    some (v :: vs, bytes)

/-- So many keys and values. -/
def entries (value : Read Value) : Nat → Read (List (Value × Value))
  | 0, bytes => some ([], bytes)
  | n + 1, bytes => do
    let (k, bytes) ← value bytes
    let (v, bytes) ← value bytes
    let (rest, bytes) ← entries value n bytes
    some ((k, v) :: rest, bytes)

/-- A text of so many bytes. -/
def strOf (n : Nat) : Read Value := fun bytes => do
  let (text, rest) ← take n bytes
  some (.str text, rest)

/-- So many bytes. -/
def binOf (n : Nat) : Read Value := fun bytes => do
  let (data, rest) ← take n bytes
  some (.bin data, rest)

/-- A float of so many bytes. -/
def floatOf (n : Nat) : Read Value := fun bytes => do
  let (bits, rest) ← take n bytes
  some (.float bits, rest)

/-- An extension of so many bytes. -/
def extOf (n : Nat) : Read Value
  | [] => none
  | type :: bytes => do
    let (data, rest) ← take n bytes
    some (.ext type data, rest)

/-- An array of so many values. -/
def arrayOf (value : Read Value) (n : Nat) : Read Value := fun bytes => do
  let (vs, rest) ← items value n bytes
  some (.array vs, rest)

/-- A map of so many entries. -/
def mapOf (value : Read Value) (n : Nat) : Read Value := fun bytes => do
  let (es, rest) ← entries value n bytes
  some (.map es, rest)

/-- Something whose length is spelled out first. -/
def withLength (size : Nat) (read : Nat → Read Value) : Read Value := fun bytes => do
  let (n, rest) ← natural size bytes
  read n rest

/-- A value behind its first byte, given how to read the values inside. -/
def decodeTail (value : Read Value) (first : Nat) : Read Value := fun bytes =>
  if first < 0x80 then some (.uint first, bytes)
  else if first < 0x90 then mapOf value (first - 0x80) bytes
  else if first < 0xa0 then arrayOf value (first - 0x90) bytes
  else if first < 0xc0 then strOf (first - 0xa0) bytes
  else if 0xe0 ≤ first then some (.sint (first - 0x100 : Int), bytes)
  else
    match first with
    | 0xc0 => some (.nil, bytes)
    | 0xc2 => some (.bool false, bytes)
    | 0xc3 => some (.bool true, bytes)
    | 0xc4 => withLength 1 binOf bytes
    | 0xc5 => withLength 2 binOf bytes
    | 0xc6 => withLength 4 binOf bytes
    | 0xc7 => withLength 1 extOf bytes
    | 0xc8 => withLength 2 extOf bytes
    | 0xc9 => withLength 4 extOf bytes
    | 0xca => floatOf 4 bytes
    | 0xcb => floatOf 8 bytes
    | 0xcc => (natural 1 bytes).map fun (n, rest) => (.uint n, rest)
    | 0xcd => (natural 2 bytes).map fun (n, rest) => (.uint n, rest)
    | 0xce => (natural 4 bytes).map fun (n, rest) => (.uint n, rest)
    | 0xcf => (natural 8 bytes).map fun (n, rest) => (.uint n, rest)
    | 0xd0 => signed 1 0x100 bytes
    | 0xd1 => signed 2 0x10000 bytes
    | 0xd2 => signed 4 0x100000000 bytes
    | 0xd3 => signed 8 0x10000000000000000 bytes
    | 0xd4 => extOf 1 bytes
    | 0xd5 => extOf 2 bytes
    | 0xd6 => extOf 4 bytes
    | 0xd7 => extOf 8 bytes
    | 0xd8 => extOf 16 bytes
    | 0xd9 => withLength 1 strOf bytes
    | 0xda => withLength 2 strOf bytes
    | 0xdb => withLength 4 strOf bytes
    | 0xdc => withLength 2 (arrayOf value) bytes
    | 0xdd => withLength 4 (arrayOf value) bytes
    | 0xde => withLength 2 (mapOf value) bytes
    | 0xdf => withLength 4 (mapOf value) bytes
    | _ => none

/-- A value that is nested at most as deep as `bound` has bytes. -/
def decodeWithin : Bytes → Read Value
  | [], _ => none
  | _ :: _, [] => none
  | _ :: bound, first :: bytes => decodeTail (decodeWithin bound) first.toNat bytes

/-- A value.  Every level of nesting takes a byte, so the bytes themselves bound the depth. -/
def decode : Read Value := fun bytes => decodeWithin bytes bytes

end MessagePack
end Ndf
