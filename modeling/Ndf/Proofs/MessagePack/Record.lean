/-
# Reading the records that were written

A record that is written with the names of its fields is read as its fields, and a variant as its
name and content, whatever else the reader would have put up with.

`Value.levels` counts the levels that a reader opens on its way: one for every array and for every
map, but none for the map of one entry that stands for a variant.  `upTo` is what a reader with so
many levels left makes of a value.
-/

import Ndf.MessagePack.Record
import Ndf.Proofs.MessagePack.Decode

namespace Ndf
namespace MessagePack

/-- Names that can be told apart, each of a length that can be written. -/
def Proper (names : List String) : Prop :=
  names.Nodup ∧ ∀ n ∈ names, n.utf8ByteSize < 0x100000000

instance (names : List String) : Decidable (Proper names) := inferInstanceAs (Decidable (_ ∧ _))

/-! ### Texts and keys -/

@[simp] theorem length_utf8 (s : String) : (utf8 s).length = s.utf8ByteSize := by
  show s.toByteArray.data.toList.length = s.toByteArray.size
  rw [Array.length_toList]
  rfl

/-- A text can be told from its bytes. -/
theorem utf8_inj {a b : String} : utf8 a = utf8 b ↔ a = b := by
  constructor
  · intro h
    refine String.toByteArray_inj.1 (ByteArray.ext (Array.toList_inj.1 ?_))
    exact h
  · exact congrArg utf8

@[simp] theorem readText_text (s : String) : readText (.text s) = some s := by
  have hbytes : (⟨(utf8 s).toArray⟩ : ByteArray) = s.toByteArray := by simp [utf8]
  show String.fromUTF8? _ = _
  rw [hbytes, String.fromUTF8?, dif_pos s.isValidUTF8]
  rfl

@[simp] theorem readBool_bool (b : Bool) : readBool (.bool b) = some b := rfl

/-- A number below the limit is read back. -/
theorem readNat_uint {limit n : Nat} (h : n < limit) : readNat limit (.uint n) = some n := by
  rw [readNat, if_pos h]

/-- A name stands for its place in the list. -/
theorem keyOf_text {names before behind : List String} {name : String} (hn : names.Nodup)
    (h : names = before ++ name :: behind) : Key.of names (.text name) = .known before.length := by
  have hnew : name ∉ before := by
    subst h
    exact fun hmem => (List.nodup_append.1 hn).2.2 name hmem name (List.mem_cons_self ..) rfl
  have hfind : (names.findIdx? fun n => utf8 n == utf8 name) = some before.length := by
    rw [List.findIdx?_eq_some_iff_getElem]
    subst h
    refine ⟨by simp, by simp, fun i hi => ?_⟩
    have hne : before[i] ≠ name := fun he => hnew (he ▸ List.getElem_mem hi)
    simpa [List.getElem_append_left hi, utf8_inj] using hne
  simp only [Value.text, Key.of, hfind]

/-! ### Records -/

/-- The fields fill the slots one after the other. -/
theorem fillSlots_zip (skip : Value → Bool) {names : List String} (hn : names.Nodup)
    (before behind : List String) (read fields : List Value) (h : names = before ++ behind)
    (hread : read.length = before.length) (hfields : fields.length = behind.length) :
    fillSlots skip names ((behind.map Value.text).zip fields)
      (read.map some ++ behind.map fun _ => none) = some ((read ++ fields).map some) := by
  induction behind generalizing before read fields with
  | nil =>
    obtain rfl := List.length_eq_zero_iff.1 hfields
    simp [fillSlots]
  | cons name behind ih =>
    obtain ⟨field, fields, rfl⟩ := List.exists_cons_of_length_eq_add_one hfields
    have hslot : (read.map some ++ (name :: behind).map fun _ => (none : Option Value))[
        before.length]? = some none := by
      rw [List.getElem?_append_right (by simp [hread])]
      simp [hread]
    have hset :
        (read.map some ++ (name :: behind).map fun _ => none).set before.length (some field) =
        (read ++ [field]).map some ++ behind.map fun _ => none := by
      rw [List.set_append, if_neg (by simp [hread])]
      simp [hread]
    have hnext := ih (before ++ [name]) (read ++ [field]) fields (by simp [h]) (by simp [hread])
      (by simpa using hfields)
    rw [List.map_cons, List.zip_cons_cons, fillSlots, keyOf_text hn h]
    dsimp only
    rw [hslot]
    dsimp only
    rw [hset, hnext, List.append_assoc, List.singleton_append]

/-- **A record is read as its fields.** -/
theorem readRecord_record (skip : Value → Bool) {names : List String} {fields : List Value}
    (hn : Proper names) (h : fields.length = names.length) :
    readRecord skip names (.record names fields) = some (fields.map some) :=
  fillSlots_zip skip hn.1 [] names [] fields rfl rfl h

/-! ### Variants -/

/-- A name of a record is the key of one field. -/
theorem keyOf_text_of_mem {names : List String} {name : String} (hn : names.Nodup)
    (h : name ∈ names) : ∃ i, Key.of names (.text name) = .known i ∧ names[i]? = some name := by
  obtain ⟨before, behind, rfl⟩ := List.append_of_mem h
  exact ⟨before.length, keyOf_text hn rfl, by simp⟩

/-- A variant is read as its name and content. -/
theorem readVariant_variant {names : List String} {name : String} (hn : Proper names)
    (h : name ∈ names) (content : Value) :
    readVariant names (.variant name content) = some (name, some content) := by
  obtain ⟨i, hkey, hname⟩ := keyOf_text_of_mem hn.1 h
  simp only [Value.variant, readVariant, hkey, hname, Option.map_some]

/-- A choice without content is read back. -/
theorem readVariant_text {names : List String} {name : String} (hn : Proper names)
    (h : name ∈ names) : readVariant names (.text name) = some (name, none) := by
  obtain ⟨i, hkey, hname⟩ := keyOf_text_of_mem hn.1 h
  have hkey' : Key.of names (.str (utf8 name)) = .known i := hkey
  simp only [Value.text, readVariant, hkey', hname, Option.map_some]

/-- A name in a table is read as what it stands for there. -/
theorem readUnit_text {α : Type} {table : List (String × α)} {name : String} {a : α}
    (hn : Proper (table.map Prod.fst)) (h : (name, a) ∈ table) :
    readUnit table (.text name) = some a := by
  have hlookup : table.lookup name = some a := by
    obtain ⟨before, behind, rfl⟩ := List.append_of_mem h
    refine List.lookup_eq_some_iff.2 ⟨before, behind, rfl, fun e he => ?_⟩
    have hne : e.1 ≠ name := by
      rintro rfl
      have hnodup := hn.1
      rw [List.map_append] at hnodup
      exact (List.nodup_append.1 hnodup).2.2 _ (List.mem_map_of_mem he) _
        (List.mem_cons_self ..) rfl
    simpa using hne.symm
  rw [readUnit, readVariant_text hn (List.mem_map_of_mem h)]
  exact hlookup

/-! ### Levels -/

mutual

/-- The levels that are opened when a value is read. -/
def Value.levels : Value → Nat
  | .array items => itemsLevels items + 1
  | .map entries => entriesLevels entries + if entries.length = 1 then 0 else 1
  | _ => 0

/-- The levels of the values of an array. -/
def itemsLevels : List Value → Nat
  | [] => 0
  | v :: rest => max v.levels (itemsLevels rest)

/-- The levels of the values of a map; its keys open none. -/
def entriesLevels : List (Value × Value) → Nat
  | [] => 0
  | (_, v) :: rest => max v.levels (entriesLevels rest)

end

@[simp] theorem levels_nil : Value.nil.levels = 0 := rfl

@[simp] theorem levels_bool (b : Bool) : (Value.bool b).levels = 0 := rfl

@[simp] theorem levels_uint (n : Nat) : (Value.uint n).levels = 0 := rfl

@[simp] theorem levels_text (s : String) : (Value.text s).levels = 0 := rfl

@[simp] theorem levels_array (vs : List Value) : (Value.array vs).levels = itemsLevels vs + 1 := by
  rw [Value.levels]

@[simp] theorem itemsLevels_nil : itemsLevels [] = 0 := rfl

@[simp] theorem itemsLevels_cons (v : Value) (vs : List Value) :
    itemsLevels (v :: vs) = max v.levels (itemsLevels vs) := rfl

@[simp] theorem levels_variant (name : String) (content : Value) :
    (Value.variant name content).levels = content.levels := by
  simp [Value.variant, Value.levels, entriesLevels]

/-- A record has the levels of its fields. -/
theorem entriesLevels_zip (keys : List Value) (fields : List Value)
    (h : fields.length = keys.length) : entriesLevels (keys.zip fields) = itemsLevels fields := by
  induction fields generalizing keys with
  | nil => simp [List.zip_nil_right, entriesLevels]
  | cons v fields ih =>
    obtain ⟨k, keys, rfl⟩ := List.exists_cons_of_length_eq_add_one h.symm
    rw [List.zip_cons_cons, entriesLevels, ih keys (by simpa using h), itemsLevels]

/-- A record of more than one field is a level. -/
theorem levels_record {names : List String} {fields : List Value}
    (h : fields.length = names.length) (h' : fields.length ≠ 1) :
    (Value.record names fields).levels = itemsLevels fields + 1 := by
  rw [Value.record, Value.levels, entriesLevels_zip _ _ (by simp [h]),
    if_neg (by simpa [h] using h')]

/-- What is read with `n` levels left, if it takes so many. -/
def upTo {α : Type} (n levels : Nat) (a : α) : Option α := if levels ≤ n then some a else none

/-- What has levels enough is read. -/
theorem upTo_of_le {α : Type} {n levels : Nat} (h : levels ≤ n) (a : α) :
    upTo n levels a = some a := if_pos h

/-- What has not is refused. -/
theorem upTo_of_lt {α : Type} {n levels : Nat} (h : n < levels) (a : α) :
    upTo n levels a = none := if_neg (Nat.not_le.2 h)

/-- Opening a level takes one of those left. -/
@[simp] theorem upTo_succ {α : Type} (n levels : Nat) (a : α) :
    upTo (n + 1) (levels + 1) a = upTo n levels a := by
  simp [upTo]

@[simp] theorem upTo_map {α β : Type} (n levels : Nat) (a : α) (f : α → β) :
    (upTo n levels a).map f = upTo n levels (f a) := by
  unfold upTo
  split <;> rfl

/-- Two parts are read where the deeper one can be. -/
theorem bind_upTo {α β : Type} {n k l : Nat} {x : Option α} {a : α} {f : α → Option β} {b : β}
    (hx : x = upTo n k a) (hf : f a = upTo n l b) : x.bind f = upTo n (max k l) b := by
  subst hx
  unfold upTo at hf ⊢
  by_cases hk : k ≤ n
  · rw [if_pos hk, Option.bind_some, hf]
    by_cases hl : l ≤ n
    · rw [if_pos hl, if_pos (by omega)]
    · rw [if_neg hl, if_neg (by omega)]
  · rw [if_neg hk, if_neg (by omega), Option.bind_none]

/-- Some parts open no level. -/
theorem flat {α : Type} {n : Nat} {x : Option α} {a : α} (h : x = some a) : x = upTo n 0 a :=
  h.trans (if_pos (Nat.zero_le n)).symm

/-! ### What is written is in range -/

/-- A text of less than four gigabytes can be written. -/
theorem encodable_text {s : String} (h : s.utf8ByteSize < 0x100000000) :
    (Value.text s).Encodable := by
  rw [Value.text, Value.Encodable, length_utf8]
  exact h

/-- A choice can be written if its content can. -/
theorem encodable_variant {names : List String} {name : String} (hn : Proper names)
    (h : name ∈ names) {content : Value} (hc : content.Encodable) :
    (Value.variant name content).Encodable := by
  rw [Value.variant, Value.Encodable]
  exact ⟨by simp, encodable_text (hn.2 name h), hc, trivial⟩

/-- Named fields can be written if the fields can. -/
theorem entriesEncodable_zip {names : List String} {fields : List Value}
    (hn : ∀ n ∈ names, n.utf8ByteSize < 0x100000000) (hf : ItemsEncodable fields) :
    EntriesEncodable ((names.map Value.text).zip fields) := by
  induction names generalizing fields with
  | nil => exact trivial
  | cons n names ih =>
    cases fields with
    | nil => exact trivial
    | cons v fields =>
      exact ⟨encodable_text (hn n (List.mem_cons_self ..)), hf.1,
        ih (fun m hm => hn m (List.mem_cons_of_mem n hm)) hf.2⟩

/-- So can a record. -/
theorem encodable_record {names : List String} {fields : List Value} (hn : Proper names)
    (hl : names.length < 0x100000000) (hf : ItemsEncodable fields) :
    (Value.record names fields).Encodable := by
  rw [Value.record, Value.Encodable]
  refine ⟨?_, entriesEncodable_zip hn.2 hf⟩
  rw [List.length_zip, List.length_map]
  omega

end MessagePack
end Ndf
