/-
# Slices by byte offset

A source text is a list of characters; spans address it by bytes of its UTF-8 form.  `dropBytes`
and `takeBytes` cut at an offset and refuse one that lies inside a character or behind the end,
and `slice?` is built from the two.  `sourceLine` is the line of a text around an offset.
-/

import Ndf.Span

namespace Ndf
namespace Text

/-- The number of bytes of the UTF-8 form. -/
def byteSize : List Char → Nat
  | [] => 0
  | c :: text => c.utf8Size + byteSize text

/-- The text behind its first `n` bytes, if a character ends there. -/
def dropBytes : Nat → List Char → Option (List Char)
  | 0, text => some text
  | _ + 1, [] => none
  | n + 1, c :: text => if c.utf8Size ≤ n + 1 then dropBytes (n + 1 - c.utf8Size) text else none

/-- The first `n` bytes of a text, if a character ends there. -/
def takeBytes : Nat → List Char → Option (List Char)
  | 0, _ => some []
  | _ + 1, [] => none
  | n + 1, c :: text =>
    if c.utf8Size ≤ n + 1 then (takeBytes (n + 1 - c.utf8Size) text).map (c :: ·) else none

/-- The text between two byte offsets, if both fall between characters and are in order. -/
def slice? (text : List Char) (start stop : Nat) : Option (List Char) :=
  if start ≤ stop then (dropBytes start text).bind (takeBytes (stop - start)) else none

/-- The text between two byte offsets; empty where `slice?` has none. -/
def slice (text : List Char) (start stop : Nat) : List Char := (slice? text start stop).getD []

/-- The text that a span covers. -/
def covered (text : List Char) (span : Span) : List Char := slice text span.start span.stop

/-- A text without the carriage returns at its end. -/
def dropReturns (text : List Char) : List Char := (text.reverse.dropWhile (· == '\r')).reverse

/-- The last line of a text, complete or not: what follows its last line feed. -/
def lastLine (text : List Char) : List Char := (text.reverse.takeWhile (· != '\n')).reverse

/-- The first line of a text, without its line feed. -/
def firstLine (text : List Char) : List Char := text.takeWhile (· != '\n')

/-- The line of a text that holds the start of a span, without its line end.  A start behind the
text counts as its end.  For a start inside a character there is no text on either side, so the
whole text stands for the line. -/
def sourceLine (text : List Char) (span : Span) : List Char :=
  let start := min span.start (byteSize text)
  match takeBytes start text, dropBytes start text with
  | some before, some rest => dropReturns (lastLine before ++ firstLine rest)
  | _, _ => dropReturns text

@[simp] theorem byteSize_nil : byteSize [] = 0 := rfl

@[simp] theorem byteSize_cons (c : Char) (text : List Char) :
    byteSize (c :: text) = c.utf8Size + byteSize text := rfl

@[simp] theorem byteSize_append (a b : List Char) :
    byteSize (a ++ b) = byteSize a + byteSize b := by
  induction a with
  | nil => simp
  | cons c a ih => simp [ih, Nat.add_assoc]

/-- A character has a byte at least. -/
theorem byteSize_pos {text : List Char} (h : text ≠ []) : 0 < byteSize text := by
  obtain ⟨c, rest, rfl⟩ := List.exists_cons_of_ne_nil h
  have := c.utf8Size_pos
  rw [byteSize_cons]
  omega

/-- Dropping bytes passes over a text in front. -/
theorem dropBytes_append (a b : List Char) (n : Nat) :
    dropBytes (byteSize a + n) (a ++ b) = dropBytes n b := by
  induction a with
  | nil => simp
  | cons c a ih =>
    have := c.utf8Size_pos
    obtain ⟨k, hk⟩ := Nat.exists_eq_succ_of_ne_zero
      (show c.utf8Size + byteSize a + n ≠ 0 by omega)
    rw [byteSize_cons, hk, List.cons_append, dropBytes, if_pos (by omega),
      show k + 1 - c.utf8Size = byteSize a + n by omega, ih]

/-- Dropping as many bytes as a text has drops the text. -/
theorem dropBytes_byteSize_append (a b : List Char) : dropBytes (byteSize a) (a ++ b) = some b := by
  simpa [dropBytes] using dropBytes_append a b 0

/-- Taking as many bytes as a text has takes the text. -/
theorem takeBytes_append (a b : List Char) : takeBytes (byteSize a) (a ++ b) = some a := by
  induction a with
  | nil => simp [takeBytes]
  | cons c a ih =>
    have := c.utf8Size_pos
    obtain ⟨k, hk⟩ := Nat.exists_eq_succ_of_ne_zero (show c.utf8Size + byteSize a ≠ 0 by omega)
    rw [byteSize_cons, hk, List.cons_append, takeBytes, if_pos (by omega),
      show k + 1 - c.utf8Size = byteSize a by omega, ih, Option.map_some]

/-- The slice between the two ends of a part is that part. -/
theorem slice?_append (a b c : List Char) :
    slice? (a ++ (b ++ c)) (byteSize a) (byteSize a + byteSize b) = some b := by
  rw [slice?, if_pos (Nat.le_add_right ..), dropBytes_byteSize_append, Nat.add_sub_cancel_left,
    Option.bind_some, takeBytes_append]

end Text

/-- Moving over a text adds its size to the offset. -/
theorem Position.offset_after (p : Position) (text : List Char) :
    (p.after text).offset = p.offset + Text.byteSize text := by
  induction text generalizing p with
  | nil => simp
  | cons c text ih => simp [ih, Nat.add_assoc]

end Ndf
