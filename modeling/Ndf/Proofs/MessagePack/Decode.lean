/-
# Decoding what was encoded

`decode` takes back from the front of some bytes whatever `encode` put there, and leaves the bytes
behind it (`decode_encode`).  A number is in range of its eight bytes and a length of its four
(`Value.Encodable`).

The bound of `decodeWithin` counts levels of nesting in bytes.  Each level starts with a byte of its
own, so the bytes of a value are bound enough for it, and the induction over the value carries just
that.
-/

import Mathlib.Algebra.Group.Nat.Defs
import Ndf.MessagePack.Value

namespace Ndf
namespace MessagePack

mutual

/-- All numbers and lengths of a value are in range. -/
def Value.Encodable : Value → Prop
  | .nil | .bool _ => True
  | .uint n => n < 0x10000000000000000
  | .sint i => -0x8000000000000000 ≤ i ∧ i < 0x8000000000000000
  | .float bits => bits.length = 4 ∨ bits.length = 8
  | .str bytes | .bin bytes | .ext _ bytes => bytes.length < 0x100000000
  | .array items => items.length < 0x100000000 ∧ ItemsEncodable items
  | .map entries => entries.length < 0x100000000 ∧ EntriesEncodable entries

/-- All values of an array can be written. -/
def ItemsEncodable : List Value → Prop
  | [] => True
  | v :: rest => v.Encodable ∧ ItemsEncodable rest

/-- All keys and values of a map can be written. -/
def EntriesEncodable : List (Value × Value) → Prop
  | [] => True
  | (k, v) :: rest => k.Encodable ∧ v.Encodable ∧ EntriesEncodable rest

end

/-! ### Numbers and lengths -/

@[simp] theorem length_bigEndian (size n : Nat) : (bigEndian size n).length = size := by
  induction size generalizing n with
  | zero => rfl
  | succ size ih => simp [bigEndian, ih]

/-- A number in so many bytes is read back if it fits in them. -/
theorem ofBigEndian_bigEndian {size n : Nat} (h : n < 0x100 ^ size) :
    ofBigEndian (bigEndian size n) = n := by
  induction size generalizing n with
  | zero =>
    obtain rfl : n = 0 := by simpa using h
    rfl
  | succ size ih =>
    have hdiv : n / 0x100 < 0x100 ^ size := by
      rw [Nat.pow_succ] at h
      omega
    have hlast : (UInt8.ofNat n).toNat = n % 0x100 := by simp
    have hfold : ofBigEndian (bigEndian (size + 1) n) =
        ofBigEndian (bigEndian size (n / 0x100)) * 0x100 + (UInt8.ofNat n).toNat := by
      simp [ofBigEndian, bigEndian]
    rw [hfold, ih hdiv, hlast]
    omega

/-- Taking as many bytes as stand in front leaves the rest. -/
theorem take_append {n : Nat} {bytes : Bytes} (h : bytes.length = n) (rest : Bytes) :
    take n (bytes ++ rest) = some (bytes, rest) := by
  subst h
  simp [take, List.splitAt_eq]

/-- A natural number of so many bytes is read back. -/
theorem natural_bigEndian {size n : Nat} (h : n < 0x100 ^ size) (rest : Bytes) :
    natural size (bigEndian size n ++ rest) = some (n, rest) := by
  simp [natural, take_append, ofBigEndian_bigEndian h]

/-- So is a length, and what has it is read behind. -/
theorem withLength_bigEndian (size : Nat) {n : Nat} (h : n < 0x100 ^ size) (read : Nat → Read Value)
    (rest : Bytes) : withLength size read (bigEndian size n ++ rest) = read n rest := by
  simp [withLength, natural_bigEndian h]

/-- A number in two's complement. -/
theorem signed_bigEndian (size : Nat) {bound : Nat} (hb : bound = 0x100 ^ size) {i : Int}
    (hl : -bound ≤ 2 * i) (hu : 2 * i < bound) (rest : Bytes) :
    signed size bound (bigEndian size (i % bound).toNat ++ rest) = some (.sint i, rest) := by
  have hpos : 0 < bound := hb ▸ Nat.pow_pos (by decide)
  have hnonneg : 0 ≤ i % bound := Int.emod_nonneg i (by omega)
  have hlt : i % bound < bound := Int.emod_lt_of_pos i (by omega)
  have hn : (i % bound).toNat < 0x100 ^ size := by omega
  have hmod : Int.bmod ((i % bound).toNat : Int) bound = i := by
    rw [Int.toNat_of_nonneg hnonneg, Int.emod_bmod]
    exact Int.bmod_eq_of_le_mul_two (by omega) (by omega)
  show (natural size _ >>= _ : Option (Value × Bytes)) = _
  rw [natural_bigEndian hn]
  show some (Value.sint (Int.bmod _ _), rest) = _
  rw [hmod]

/-! ### First bytes -/

variable {b : UInt8} {bound : Bytes}

/-- A first byte is what it was made from. -/
theorem toNat_ofNat {n : Nat} (h : n < 0x100) : (UInt8.ofNat n).toNat = n := by
  simp only [UInt8.toNat_ofNat']
  omega

/-- The first byte says how to read on. -/
theorem decodeWithin_cons (first : UInt8) (bytes : Bytes) :
    decodeWithin (b :: bound) (first :: bytes) =
      decodeTail (decodeWithin bound) first.toNat bytes := rfl

/-- A type byte with the number behind it. -/
theorem sized_cases {n : Nat} (h : n < 0x100000000) (one two four : UInt8) {P : Bytes → Prop}
    (h1 : n < 0x100 ^ 1 → P (one :: bigEndian 1 n)) (h2 : n < 0x100 ^ 2 → P (two :: bigEndian 2 n))
    (h4 : n < 0x100 ^ 4 → P (four :: bigEndian 4 n)) : P (sized one two four n) := by
  unfold sized
  split
  · exact h1 (by omega)
  · split
    · exact h2 (by omega)
    · exact h4 (by omega)

/-- A natural number is read back in each of its forms. -/
theorem decode_uint {n : Nat} (h : n < 0x10000000000000000) (rest : Bytes) :
    decodeWithin (b :: bound) (encodeUInt n ++ rest) = some (.uint n, rest) := by
  have tail (size : Nat) (hn : n < 0x100 ^ size) :
      (natural size (bigEndian size n ++ rest)).map (fun x => (Value.uint x.1, x.2)) =
        some (.uint n, rest) := by
    rw [natural_bigEndian hn, Option.map_some]
  unfold encodeUInt
  split
  · rename_i hn
    have hfirst := toNat_ofNat (show n < 0x100 by omega)
    rw [List.singleton_append, decodeWithin_cons, hfirst, decodeTail.eq_def, if_pos hn]
  · split
    · rename_i hn
      exact sized_cases hn _ _ _ (P := fun bytes =>
        decodeWithin (b :: bound) (bytes ++ rest) = some (.uint n, rest)) (tail _) (tail _) (tail _)
    · exact tail 8 (by omega)

/-- So is a signed number. -/
theorem decode_sint {i : Int} (hl : -0x8000000000000000 ≤ i) (hu : i < 0x8000000000000000)
    (rest : Bytes) : decodeWithin (b :: bound) (encodeSInt i ++ rest) = some (.sint i, rest) := by
  unfold encodeSInt
  split
  · rename_i hi
    have hfirst := toNat_ofNat (show (i + 0x100).toNat < 0x100 by omega)
    have hback : (((i + 0x100).toNat : Nat) - 0x100 : Int) = i := by omega
    rw [List.singleton_append, decodeWithin_cons, hfirst, decodeTail.eq_def, if_neg (by omega),
      if_neg (by omega), if_neg (by omega), if_neg (by omega), if_pos (by omega), hback]
  · split
    · exact signed_bigEndian 1 rfl (by omega) (by omega) rest
    · split
      · exact signed_bigEndian 2 rfl (by omega) (by omega) rest
      · split
        · exact signed_bigEndian 4 rfl (by omega) (by omega) rest
        · exact signed_bigEndian 8 rfl (by omega) (by omega) rest

/-- The front of a text tells its length. -/
theorem decode_str {n : Nat} (h : n < 0x100000000) (rest : Bytes) :
    decodeWithin (b :: bound) (strHeader n ++ rest) = strOf n rest := by
  unfold strHeader
  split
  · rename_i hn
    have hfirst := toNat_ofNat (show (0xa0 + n) < 0x100 by omega)
    rw [List.singleton_append, decodeWithin_cons, hfirst, decodeTail.eq_def, if_neg (by omega),
      if_neg (by omega), if_neg (by omega), if_pos (by omega), Nat.add_sub_cancel_left]
  · exact sized_cases h _ _ _ (P := fun bytes =>
      decodeWithin (b :: bound) (bytes ++ rest) = strOf n rest)
      (withLength_bigEndian _ · _ _) (withLength_bigEndian _ · _ _) (withLength_bigEndian _ · _ _)

/-- So does that of some bytes. -/
theorem decode_bin {n : Nat} (h : n < 0x100000000) (rest : Bytes) :
    decodeWithin (b :: bound) (sized 0xc4 0xc5 0xc6 n ++ rest) = binOf n rest :=
  sized_cases h _ _ _ (P := fun bytes =>
    decodeWithin (b :: bound) (bytes ++ rest) = binOf n rest)
    (withLength_bigEndian _ · _ _) (withLength_bigEndian _ · _ _) (withLength_bigEndian _ · _ _)

/-- So does that of an extension. -/
theorem decode_ext {n : Nat} (h : n < 0x100000000) (rest : Bytes) :
    decodeWithin (b :: bound) (extHeader n ++ rest) = extOf n rest := by
  unfold extHeader
  split
  · rfl
  · rfl
  · rfl
  · rfl
  · rfl
  · exact sized_cases h _ _ _ (P := fun bytes =>
      decodeWithin (b :: bound) (bytes ++ rest) = extOf n rest)
      (withLength_bigEndian _ · _ _) (withLength_bigEndian _ · _ _) (withLength_bigEndian _ · _ _)

/-- So does that of an array. -/
theorem decode_array {n : Nat} (h : n < 0x100000000) (rest : Bytes) :
    decodeWithin (b :: bound) (arrayHeader n ++ rest) = arrayOf (decodeWithin bound) n rest := by
  unfold arrayHeader
  split
  · rename_i hn
    have hfirst := toNat_ofNat (show (0x90 + n) < 0x100 by omega)
    rw [List.singleton_append, decodeWithin_cons, hfirst, decodeTail.eq_def, if_neg (by omega),
      if_neg (by omega), if_pos (by omega), Nat.add_sub_cancel_left]
  · split
    · rename_i hn
      exact withLength_bigEndian 2 hn _ _
    · exact withLength_bigEndian 4 h _ _

/-- So does that of a map. -/
theorem decode_map {n : Nat} (h : n < 0x100000000) (rest : Bytes) :
    decodeWithin (b :: bound) (mapHeader n ++ rest) = mapOf (decodeWithin bound) n rest := by
  unfold mapHeader
  split
  · rename_i hn
    have hfirst := toNat_ofNat (show (0x80 + n) < 0x100 by omega)
    rw [List.singleton_append, decodeWithin_cons, hfirst, decodeTail.eq_def, if_neg (by omega),
      if_pos (by omega), Nat.add_sub_cancel_left]
  · split
    · rename_i hn
      exact withLength_bigEndian 2 hn _ _
    · exact withLength_bigEndian 4 h _ _

/-- Every header takes a byte at least. -/
theorem length_header_pos {bytes : Bytes} (h : bytes ≠ []) (rest : Bytes) :
    rest.length < (bytes ++ rest).length := by
  have := List.length_pos_iff.2 h
  rw [List.length_append]
  omega

/-- A length with its first byte is no empty text. -/
theorem sized_ne_nil (one two four : UInt8) (n : Nat) : sized one two four n ≠ [] := by
  unfold sized
  split
  · simp
  · split <;> simp

/-- Nor is the front of an array. -/
theorem arrayHeader_ne_nil (n : Nat) : arrayHeader n ≠ [] := by
  unfold arrayHeader
  split
  · simp
  · split <;> simp

/-- Nor is that of a map. -/
theorem mapHeader_ne_nil (n : Nat) : mapHeader n ≠ [] := by
  unfold mapHeader
  split
  · simp
  · split <;> simp

/-! ### Values -/

/-- Every value is written in one byte at least. -/
theorem encode_ne_nil (v : Value) : encode v ≠ [] := by
  cases v with
  | uint n =>
    rw [encode]
    unfold encodeUInt
    split
    · simp
    · split
      · exact sized_ne_nil 0xcc 0xcd 0xce n
      · simp
  | sint i =>
    rw [encode, encodeSInt]
    repeat' split
    all_goals simp
  | str bytes =>
    rw [encode, strHeader]
    split
    · simp
    · simp [sized_ne_nil]
  | ext type data =>
    rw [encode]
    simp
  | _ => simp [encode, arrayHeader_ne_nil, mapHeader_ne_nil, sized_ne_nil]

mutual

/-- As many bytes as a value has bound its nesting. -/
theorem decodeWithin_encode : ∀ (v : Value), v.Encodable → ∀ (bound rest : Bytes),
    (encode v).length ≤ bound.length → decodeWithin bound (encode v ++ rest) = some (v, rest)
  | v, hv, [], rest, hb => absurd (List.length_eq_zero_iff.1 (Nat.le_zero.1 hb)) (encode_ne_nil v)
  | .nil, _, b :: bound, rest, _ => rfl
  | .bool true, _, b :: bound, rest, _ => rfl
  | .bool false, _, b :: bound, rest, _ => rfl
  | .uint n, hv, b :: bound, rest, _ => decode_uint hv rest
  | .sint i, hv, b :: bound, rest, _ => decode_sint hv.1 hv.2 rest
  | .float bits, hv, b :: bound, rest, _ => by
    rw [encode]
    rcases hv with hv | hv
    · rw [if_pos hv, List.cons_append]
      show (take 4 (bits ++ rest)).bind _ = _
      rw [take_append hv]
      rfl
    · rw [if_neg (by omega), List.cons_append]
      show (take 8 (bits ++ rest)).bind _ = _
      rw [take_append hv]
      rfl
  | .str bytes, hv, b :: bound, rest, _ => by
    rw [encode, List.append_assoc, decode_str hv, strOf, take_append rfl]
    rfl
  | .bin bytes, hv, b :: bound, rest, _ => by
    rw [encode, List.append_assoc, decode_bin hv, binOf, take_append rfl]
    rfl
  | .ext type data, hv, b :: bound, rest, _ => by
    rw [encode, List.append_assoc, decode_ext hv, List.cons_append, extOf, take_append rfl]
    rfl
  | .array vs, hv, b :: bound, rest, hb => by
    have hlt := length_header_pos (arrayHeader_ne_nil vs.length) (encodeItems vs)
    rw [encode, List.length_cons] at hb
    rw [encode, List.append_assoc, decode_array hv.1, arrayOf,
      items_encode vs hv.2 bound rest (by omega)]
    rfl
  | .map es, hv, b :: bound, rest, hb => by
    have hlt := length_header_pos (mapHeader_ne_nil es.length) (encodeEntries es)
    rw [encode, List.length_cons] at hb
    rw [encode, List.append_assoc, decode_map hv.1, mapOf,
      entries_encode es hv.2 bound rest (by omega)]
    rfl

/-- The values of an array are read back one after another. -/
theorem items_encode : ∀ (vs : List Value), ItemsEncodable vs → ∀ (bound rest : Bytes),
    (encodeItems vs).length ≤ bound.length →
      items (decodeWithin bound) vs.length (encodeItems vs ++ rest) = some (vs, rest)
  | [], _, _, _, _ => rfl
  | v :: vs, hv, bound, rest, hb => by
    rw [encodeItems, List.length_append] at hb
    rw [encodeItems, List.append_assoc, List.length_cons, items,
      decodeWithin_encode v hv.1 bound _ (by omega)]
    show (items (decodeWithin bound) vs.length (encodeItems vs ++ rest)).bind _ = _
    rw [items_encode vs hv.2 bound rest (by omega)]
    rfl

/-- So are the entries of a map. -/
theorem entries_encode : ∀ (es : List (Value × Value)), EntriesEncodable es →
    ∀ (bound rest : Bytes), (encodeEntries es).length ≤ bound.length →
      entries (decodeWithin bound) es.length (encodeEntries es ++ rest) = some (es, rest)
  | [], _, _, _, _ => rfl
  | (k, v) :: es, hv, bound, rest, hb => by
    rw [encodeEntries, List.length_append, List.length_append] at hb
    rw [encodeEntries, List.append_assoc, List.append_assoc, List.length_cons, entries,
      decodeWithin_encode k hv.1 bound _ (by omega)]
    show (decodeWithin bound (encode v ++ (encodeEntries es ++ rest))).bind _ = _
    rw [decodeWithin_encode v hv.2.1 bound _ (by omega)]
    show (entries (decodeWithin bound) es.length (encodeEntries es ++ rest)).bind _ = _
    rw [entries_encode es hv.2.2 bound rest (by omega)]
    rfl

end

/-- **Decoding takes back what was encoded**, and leaves what is behind it. -/
theorem decode_encode {v : Value} (hv : v.Encodable) (rest : Bytes) :
    decode (encode v ++ rest) = some (v, rest) := by
  refine decodeWithin_encode v hv _ rest ?_
  rw [List.length_append]
  exact Nat.le_add_right _ _

end MessagePack
end Ndf
