/-
# Bytes that are cut short

Reading never looks behind the bytes that it takes: what is read off the front of some bytes is read
off any longer ones as well (`decode_append`).  So no value is read off a strict part of the bytes
that another one is written in, since it would be read off all of them (`decode_cut`).

`Extends r s` says of two readers that `s` reads what `r` does.  They differ where the values inside
of a value are read, as longer bytes allow for deeper nesting.
-/

import Mathlib.Tactic.SplitIfs
import Ndf.Proofs.MessagePack.Decode

namespace Ndf
namespace MessagePack

variable {α β : Type} {v : Value}

/-- What `r` reads, `s` reads as well, whatever stands behind. -/
def Extends (r s : Read α) : Prop :=
  ∀ ⦃bytes a rest⦄, r bytes = some (a, rest) → ∀ more, s (bytes ++ more) = some (a, rest ++ more)

/-- Reading nothing takes nothing. -/
theorem Extends.pure (a : α) :
    Extends (fun bytes => some (a, bytes)) fun bytes => some (a, bytes) := by
  intro bytes b rest h more
  obtain ⟨rfl, rfl⟩ := Prod.mk.inj (Option.some.inj h)
  rfl

/-- Readers extend each other one behind the other. -/
theorem Extends.bind {r r' : Read α} {f f' : α → Read β} (h : Extends r r')
    (hf : ∀ a, Extends (f a) (f' a)) :
    Extends (fun bytes => r bytes >>= fun p => f p.1 p.2)
      fun bytes => r' bytes >>= fun p => f' p.1 p.2 := by
  intro bytes b rest hb more
  obtain ⟨⟨a, mid⟩, ha, hb⟩ := Option.bind_eq_some_iff.1 hb
  exact Option.bind_eq_some_iff.2 ⟨(a, mid ++ more), h ha more, hf a hb more⟩

/-- What is made of a value read is made of it where more bytes follow. -/
theorem Extends.map {r r' : Read α} (h : Extends r r') (f : α → β) :
    Extends (fun bytes => r bytes >>= fun p => some (f p.1, p.2))
      fun bytes => r' bytes >>= fun p => some (f p.1, p.2) := h.bind fun a => .pure (f a)

/-- As many bytes are taken where more follow. -/
theorem take_extends (n : Nat) : Extends (take n) (take n) := by
  intro bytes a rest h more
  unfold take at h ⊢
  split at h
  · rename_i hn
    rw [List.splitAt_eq] at h
    obtain ⟨rfl, rfl⟩ := Prod.mk.inj (Option.some.inj h)
    rw [if_pos (by rw [List.length_append]; omega), List.splitAt_eq,
      List.take_append_of_le_length hn, List.drop_append_of_le_length hn]
  · cases h

/-- A natural number is read alike. -/
theorem natural_extends (size : Nat) : Extends (natural size) (natural size) :=
  (take_extends size).map ofBigEndian

/-- So is a signed one. -/
theorem signed_extends (size bound : Nat) : Extends (signed size bound) (signed size bound) :=
  (natural_extends size).map fun n => Value.sint (Int.bmod n bound)

/-- So is a text. -/
theorem strOf_extends (n : Nat) : Extends (strOf n) (strOf n) :=
  (take_extends n).map Value.str

/-- So are bytes. -/
theorem binOf_extends (n : Nat) : Extends (binOf n) (binOf n) :=
  (take_extends n).map Value.bin

/-- So is a float. -/
theorem floatOf_extends (n : Nat) : Extends (floatOf n) (floatOf n) :=
  (take_extends n).map Value.float

/-- So is an extension. -/
theorem extOf_extends (n : Nat) : Extends (extOf n) (extOf n) := by
  rintro (_ | ⟨type, bytes⟩) a rest h more
  · cases h
  · exact (take_extends n).map (Value.ext type) h more

/-- So is whatever has its length in front. -/
theorem withLength_extends (size : Nat) {read read' : Nat → Read Value}
    (h : ∀ n, Extends (read n) (read' n)) :
    Extends (withLength size read) (withLength size read') :=
  (natural_extends size).bind h

/-- A natural number as a value. -/
theorem uint_extends (size : Nat) :
    Extends (fun bytes => (natural size bytes).map fun p => (Value.uint p.1, p.2))
      fun bytes => (natural size bytes).map fun p => (Value.uint p.1, p.2) := by
  intro bytes a rest h more
  obtain ⟨⟨n, mid⟩, hn, he⟩ := Option.map_eq_some_iff.1 h
  obtain ⟨rfl, rfl⟩ := Prod.mk.inj he
  exact Option.map_eq_some_iff.2 ⟨_, natural_extends size hn more, rfl⟩

section Inside

variable {value value' : Read Value} (h : Extends value value')

include h

/-- So are the values of an array. -/
theorem items_extends (n : Nat) : Extends (items value n) (items value' n) := by
  induction n with
  | zero => exact .pure []
  | succ n ih => exact h.bind fun v => ih.map (v :: ·)

/-- So are the entries of a map. -/
theorem entries_extends (n : Nat) : Extends (entries value n) (entries value' n) := by
  induction n with
  | zero => exact .pure []
  | succ n ih => exact h.bind fun k => h.bind fun v => ih.map ((k, v) :: ·)

/-- So is an array. -/
theorem arrayOf_extends (n : Nat) : Extends (arrayOf value n) (arrayOf value' n) :=
  (items_extends h n).map Value.array

/-- So is a map. -/
theorem mapOf_extends (n : Nat) : Extends (mapOf value n) (mapOf value' n) :=
  (entries_extends h n).map Value.map

/-- **A value behind its first byte is read alike**, if the values inside are. -/
theorem decodeTail_extends (first : Nat) :
    Extends (decodeTail value first) (decodeTail value' first) := by
  intro bytes a rest hr more
  unfold decodeTail at hr ⊢
  split_ifs at hr ⊢ with huint hmap harray hstr hsint
  · exact Extends.pure _ hr more
  · exact mapOf_extends h _ hr more
  · exact arrayOf_extends h _ hr more
  · exact strOf_extends _ hr more
  · exact Extends.pure _ hr more
  · split at hr
    · exact Extends.pure _ hr more
    · exact Extends.pure _ hr more
    · exact Extends.pure _ hr more
    · exact withLength_extends 1 binOf_extends hr more
    · exact withLength_extends 2 binOf_extends hr more
    · exact withLength_extends 4 binOf_extends hr more
    · exact withLength_extends 1 extOf_extends hr more
    · exact withLength_extends 2 extOf_extends hr more
    · exact withLength_extends 4 extOf_extends hr more
    · exact floatOf_extends 4 hr more
    · exact floatOf_extends 8 hr more
    · exact uint_extends 1 hr more
    · exact uint_extends 2 hr more
    · exact uint_extends 4 hr more
    · exact uint_extends 8 hr more
    · exact signed_extends 1 _ hr more
    · exact signed_extends 2 _ hr more
    · exact signed_extends 4 _ hr more
    · exact signed_extends 8 _ hr more
    · exact extOf_extends 1 hr more
    · exact extOf_extends 2 hr more
    · exact extOf_extends 4 hr more
    · exact extOf_extends 8 hr more
    · exact extOf_extends 16 hr more
    · exact withLength_extends 1 strOf_extends hr more
    · exact withLength_extends 2 strOf_extends hr more
    · exact withLength_extends 4 strOf_extends hr more
    · exact withLength_extends 2 (arrayOf_extends h) hr more
    · exact withLength_extends 4 (arrayOf_extends h) hr more
    · exact withLength_extends 2 (mapOf_extends h) hr more
    · exact withLength_extends 4 (mapOf_extends h) hr more
    · cases hr

end Inside

/-- A value that is nested no deeper than a bound is not nested deeper than a larger one. -/
theorem decodeWithin_extends (bound above : Bytes) :
    Extends (decodeWithin bound) (decodeWithin (bound ++ above)) := by
  induction bound with
  | nil => exact fun _ _ _ h => nomatch h
  | cons b bound ih =>
    rintro (_ | ⟨first, bytes⟩) a rest h more
    · cases h
    · exact decodeTail_extends ih first.toNat h more

/-- **What is read off some bytes is read off longer ones.** -/
theorem decode_append {bytes rest : Bytes} (h : decode bytes = some (v, rest)) (more : Bytes) :
    decode (bytes ++ more) = some (v, rest ++ more) :=
  decodeWithin_extends bytes more h more

/-- **Nothing is read off a strict part of what was written.** -/
theorem decode_cut (hv : v.Encodable) {bytes : Bytes} (hb : bytes <+: encode v)
    (hne : bytes ≠ encode v) : decode bytes = none := by
  obtain ⟨more, hmore⟩ := hb
  refine Option.eq_none_iff_forall_ne_some.2 fun ⟨w, rest⟩ hw => hne ?_
  -- What would be read is read off all the bytes, and these hold the value and nothing else.
  have hall := decode_append hw more
  have hvalue := decode_encode hv []
  rw [List.append_nil, ← hmore, hall] at hvalue
  obtain ⟨-, hnil⟩ := Prod.mk.inj (Option.some.inj hvalue)
  rw [← hmore, (List.append_eq_nil_iff.1 hnil).2, List.append_nil]

end MessagePack
end Ndf
