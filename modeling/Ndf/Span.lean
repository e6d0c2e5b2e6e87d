/-
# Positions and spans

`SPEC_FULL.md` §6: the span of a diagnostic.

A `Position` is a place in a source text, a `Span` a stretch of it.  Offsets count bytes of the
UTF-8 form, lines and columns count from one, and a column counts characters, not bytes.  A span
carries the line and column of its first character only.

`Position.advance` moves over one character and `Position.after` over a text, so the position of
any point of a source is `Position.after` of the text before it.
-/

namespace Ndf

/-- A stretch of source text: the byte offsets of its two ends (the second exclusive) and the
line and column of its start. -/
structure Span where
  start : Nat
  stop : Nat
  line : Nat
  column : Nat
deriving DecidableEq, Repr, Inhabited

namespace Span

/-- The empty span before the first character. -/
def origin : Span := ⟨0, 0, 1, 1⟩

/-- The span with all its numbers zero, which lies in no text. -/
def zero : Span := ⟨0, 0, 0, 0⟩

/-- The span from the start of `a` to whichever of the two ends lies further on. -/
def through (a b : Span) : Span := { a with stop := max b.stop a.stop }

/-- The empty span where `a` ends.  Line and column stay those of its start. -/
def atStop (a : Span) : Span := { a with start := a.stop }

/-- The empty span where `a` starts. -/
def atStart (a : Span) : Span := { a with stop := a.start }

/-- The number of bytes covered. -/
def size (a : Span) : Nat := a.stop - a.start

/-- Whether nothing is covered. -/
def isEmpty (a : Span) : Bool := a.start == a.stop

@[simp] theorem start_through (a b : Span) : (a.through b).start = a.start := rfl

@[simp] theorem line_through (a b : Span) : (a.through b).line = a.line := rfl

@[simp] theorem column_through (a b : Span) : (a.through b).column = a.column := rfl

/-- A span through another ends no earlier. -/
theorem stop_le_stop_through (a b : Span) : a.stop ≤ (a.through b).stop := Nat.le_max_right ..

end Span

/-- A place in a source text. -/
structure Position where
  offset : Nat
  line : Nat
  column : Nat
deriving DecidableEq, Repr, Inhabited

namespace Position

/-- The place of the first character. -/
def origin : Position := ⟨0, 1, 1⟩

/-- The place behind one character: a line feed opens a new line, all else takes one column. -/
def advance (p : Position) (c : Char) : Position :=
  if c = '\n' then ⟨p.offset + c.utf8Size, p.line + 1, 1⟩
  else ⟨p.offset + c.utf8Size, p.line, p.column + 1⟩

/-- The place behind a text. -/
def after (p : Position) (text : List Char) : Position := text.foldl advance p

/-- The span from one place to another. -/
def upTo (p q : Position) : Span := ⟨p.offset, q.offset, p.line, p.column⟩

@[simp] theorem after_nil (p : Position) : p.after [] = p := rfl

@[simp] theorem after_cons (p : Position) (c : Char) (text : List Char) :
    p.after (c :: text) = (p.advance c).after text := rfl

@[simp] theorem after_append (p : Position) (a b : List Char) :
    p.after (a ++ b) = (p.after a).after b := List.foldl_append

@[simp] theorem offset_advance (p : Position) (c : Char) :
    (p.advance c).offset = p.offset + c.utf8Size := by
  unfold advance; split <;> rfl

end Position

end Ndf
