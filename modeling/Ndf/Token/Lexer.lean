/-
# Tokenizing a source text

`SPEC_FULL.md` §4.1, "Scanner"; E1 for the byte order mark.

A `Lexer` is a place in a source text together with the little that tokens need from the left:
whether a comment ends here, and how much of `guid :` stands before, which makes the next brace a
payload.  `Lexer.next` passes over white space and cuts one token off; `Lexer.steps` repeats it up
to the end of the source.  Every step but the last leaves a shorter text
(`Lexer.rest_next_length_lt`), so the end is reached.

A byte order mark at the very front of a source is not part of its text: it takes three bytes and
no column.
-/

import Ndf.Text.Blank
import Ndf.Text.Slice
import Ndf.Token.Scan

namespace Ndf

/-- How much of `guid :` stands directly before a place, comments aside. -/
inductive GuidProgress where
  | none
  | word
  | colon
deriving DecidableEq, Repr

/-- The progress behind one more token. -/
def GuidProgress.step (progress : GuidProgress) (kind : TokenKind) : GuidProgress :=
  if kind.isTrivia then progress
  else if kind.keyword? = some .guid then .word
  else if kind = .colon ∧ progress = .word then .colon
  else .none

/-- A place between two tokens of a source text. -/
structure Lexer where
  /-- The text from here on. -/
  rest : List Char
  position : Position
  /-- The token before this place is a comment. -/
  afterComment : Bool
  guid : GuidProgress
deriving DecidableEq, Repr

/-- One token, the problem it shows, and the place behind it. -/
structure LexStep where
  token : Token
  problem : Option Diagnostic
  next : Lexer

namespace Lexer

/-- The place at the front of a source text. -/
def ofText : List Char → Lexer
  | '\uFEFF' :: text => ⟨text, { Position.origin with offset := 3 }, false, .none⟩
  | text => ⟨text, Position.origin, false, .none⟩

/-- The next token.  At the end of the source it is `eof`, however often it is asked for. -/
def next (l : Lexer) : LexStep :=
  let blank := l.rest.takeWhile Text.isBlank
  let here := l.position.after blank
  let joined := blank.isEmpty && !l.afterComment
  match l.rest.dropWhile Text.isBlank with
  | [] =>
    { token := ⟨.eof, here.upTo here, joined⟩, problem := none
      next := { l with rest := [], position := here } }
  | c :: rest =>
    let lexeme := Lexeme.scan (l.guid == .colon) c rest
    let there := here.after lexeme.text
    { token := ⟨lexeme.kind, here.upTo there, joined⟩
      problem := lexeme.problem.map (Diagnostic.ofCause · (here.upTo there))
      next := ⟨lexeme.rest, there, lexeme.kind.isTrivia, l.guid.step lexeme.kind⟩ }

/-- **Every token but the last shortens the text.** -/
theorem rest_next_length_lt {l : Lexer} (h : l.next.token.kind ≠ .eof) :
    l.next.next.rest.length < l.rest.length := by
  have le : (l.rest.dropWhile Text.isBlank).length ≤ l.rest.length :=
    (List.dropWhile_suffix _).length_le
  revert h
  unfold next
  simp only
  split
  · simp
  · rename_i hd
    rw [hd] at le
    intro _
    exact Nat.lt_of_lt_of_le (Lexeme.scan_rest_length_lt ..) le

/-- The tokens from a place on, the last of them `eof`. -/
def steps (l : Lexer) : List LexStep :=
  if _h : l.next.token.kind = .eof then [l.next] else l.next :: steps l.next.next
termination_by l.rest.length
decreasing_by exact rest_next_length_lt _h

/-- The place where a source has been read to its end. -/
def finish (l : Lexer) : Lexer := (l.steps.getLast?.map LexStep.next).getD l

end Lexer

/-- The tokens of a source text, comments included and `eof` at the end, with the problems that
single tokens show. -/
structure Lexed where
  tokens : List Token
  diagnostics : List Diagnostic

/-- Tokenizes a source text. -/
def tokenize (source : String) : Lexed :=
  let steps := (Lexer.ofText source.toList).steps
  ⟨steps.map LexStep.token, steps.filterMap LexStep.problem⟩

end Ndf
