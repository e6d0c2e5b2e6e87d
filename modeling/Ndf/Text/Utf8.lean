/-
# Decoding bytes

Bytes are a text if they are the UTF-8 form of one.  If not, `decode` says how many bytes at the
front still are: it counts whole characters up to the first that cannot be read.
-/

namespace Ndf
namespace Text

/-- A character that is decoded starts before the end. -/
theorem lt_size_of_utf8DecodeChar? {bytes : ByteArray} {i : Nat} {c : Char}
    (h : bytes.utf8DecodeChar? i = some c) : i < bytes.size := by
  unfold ByteArray.utf8DecodeChar? at h
  split at h
  · assumption
  · cases h

/-- The number of bytes up to the first that starts no character, counted from byte `i`. -/
def validUpTo (bytes : ByteArray) (i : Nat) : Nat :=
  match _h : bytes.utf8DecodeChar? i with
  | none => i
  | some c => validUpTo bytes (i + c.utf8Size)
termination_by bytes.size - i
decreasing_by
  have := lt_size_of_utf8DecodeChar? _h
  have := c.utf8Size_pos
  omega

/-- The text that bytes are, or the number of bytes at the front that are one. -/
def decode (bytes : ByteArray) : Except Nat String :=
  match String.fromUTF8? bytes with
  | some text => .ok text
  | none => .error (validUpTo bytes 0)

end Text
end Ndf
