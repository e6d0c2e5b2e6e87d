/-
# The parsing monad

`SPEC_FULL.md` §7: a problem is local, and reading it never fails.

A `Parser` reads tokens from a `Cursor` and ends with a value or by giving up.  Either way the
cursor keeps what was read and the notes keep what was found, so whoever called can recover from
where things went wrong.  Parsers are functions of the source and the cursor alone: a note once
taken influences nothing that is read later.

The end-of-input token belongs to the source and is never read; past the last token the cursor
shows it for ever.  `loop` repeats a step at most once per token left and once more, which is
enough for every step that reads a token in each round.

Some operations are defined in part only: text is cut between characters, a token is split where
there is one, a level is closed that is open, and a loop has rounds left.  An operation outside of
these bounds notes a `Breach`.
-/

import Ndf.Diagnostic
import Ndf.Text.Slice
import Ndf.Tree

namespace Ndf

/-- What happens during a parse, for a log. -/
inductive ParseEvent where
  /-- An item of the document was read, at this line and column. -/
  | item (line column : Nat) (error : Bool)
  /-- A broken item was cut out. -/
  | recoveredItem (span : Span)
  /-- A broken entry of an object was cut out. -/
  | recoveredEntry (span : Span)
  /-- A fragment below the last level of nesting was cut out. -/
  | skipped (span : Span)
  /-- The parse was called off after so many tokens. -/
  | cancelled (position : Nat)
deriving DecidableEq, Repr

/-- An operation outside of its bounds. -/
inductive Breach where
  /-- Text is cut at ends that are out of order, inside a character or behind the source. -/
  | slice (span : Span)
  /-- A token is split where there is none. -/
  | token
  /-- A level is closed and none is open. -/
  | level
  /-- A loop goes on and all its rounds are over. -/
  | rounds
deriving DecidableEq, Repr

/-- What a parser records on its way. -/
inductive Note where
  | problem (diagnostic : Diagnostic)
  /-- The input ends too early.  Of these only the first is worth reporting. -/
  | atEnd (diagnostic : Diagnostic)
  | event (event : ParseEvent)
  | breach (breach : Breach)
deriving DecidableEq, Repr

/-- The first half of a `>=`, which closes a list of type parameters. -/
def Token.firstHalf (t : Token) : Token := ⟨.gt, { t.span with stop := t.span.start + 1 }, t.joined⟩

/-- The second half of a `>=`, an equals sign of its own. -/
def Token.secondHalf (t : Token) : Token :=
  ⟨.eq, ⟨t.span.start + 1, t.span.stop, t.span.line, t.span.column + 1⟩, true⟩

/-- What a parser reads from, apart from the tokens. -/
structure Source where
  /-- The source text. -/
  text : List Char
  /-- The end-of-input token. -/
  stop : Token

/-- A place between two tokens. -/
structure Cursor where
  /-- The tokens from here on, without comments and without the end of the input. -/
  rest : List Token
  /-- The number of tokens read. -/
  count : Nat
  /-- The span of the last token read. -/
  last : Span
  /-- The number of levels that are open. -/
  depth : Nat

namespace Cursor

/-- The place in front of all tokens. -/
def start (tokens : List Token) : Cursor := ⟨tokens, 0, Span.origin, 0⟩

/-- The same place with one more level open. -/
def down (c : Cursor) : Cursor := { c with depth := c.depth + 1 }

/-- The same place with one level closed. -/
def up (c : Cursor) : Cursor := { c with depth := c.depth - 1 }

end Cursor

/-- How a parser ends.  Without a value it gave up, and a note says why. -/
structure Outcome (α : Type) where
  value : Option α
  cursor : Cursor
  notes : List Note

/-- A parser of values of type `α`. -/
def Parser (α : Type) : Type := Source → Cursor → Outcome α

namespace Parser

variable {α β σ : Type}

/-- Reads nothing. -/
protected def pure (a : α) : Parser α := fun _ c => ⟨some a, c, []⟩

/-- Runs one parser, and the next from where it ended unless it gave up. -/
protected def bind (p : Parser α) (f : α → Parser β) : Parser β := fun src c =>
  let first := p src c
  match first.value with
  | none => ⟨none, first.cursor, first.notes⟩
  | some a =>
    let second := f a src first.cursor
    { second with notes := first.notes ++ second.notes }

instance : Monad Parser where
  pure := Parser.pure
  bind := Parser.bind

/-- Gives up. -/
def abort : Parser α := fun _ c => ⟨none, c, []⟩

/-- Gives up in a place that is never to be got to. -/
def breach (b : Breach) : Parser α := fun _ c => ⟨none, c, [.breach b]⟩

/-- Runs a parser, and another from where it ended if it gave up. -/
def orRecover (p q : Parser α) : Parser α := fun src c =>
  let first := p src c
  match first.value with
  | some _ => first
  | none =>
    let second := q src first.cursor
    { second with notes := first.notes ++ second.notes }

/-- Repeats a step, carrying a state, until it ends with a result: once for each element of
`rounds` and once more. -/
def rounds (step : σ → Parser (σ ⊕ β)) : List Token → σ → Parser β
  | [], s => do
    match ← step s with
    | .inl _ => breach .rounds
    | .inr b => pure b
  | _ :: more, s => do
    match ← step s with
    | .inl s => rounds step more s
    | .inr b => pure b

/-- Repeats a step, carrying a state, until it ends with a result.  The rounds are bounded by the
tokens left, so every step that goes on has to read one. -/
def loop (step : σ → Parser (σ ⊕ β)) (s : σ) : Parser β := fun src c =>
  rounds step c.rest s src c

/-! ### Reading tokens -/

/-- The tokens from here on. -/
def ahead : Parser (List Token) := fun _ c => ⟨some c.rest, c, []⟩

/-- The next token, or the end of the input. -/
def peek : Parser Token := fun src c => ⟨some (c.rest.headD src.stop), c, []⟩

/-- Reads one token.  The end of the input is never read. -/
def bump : Parser Unit := fun _ c =>
  match c.rest with
  | [] => ⟨some (), c, []⟩
  | t :: rest => ⟨some (), ⟨rest, c.count + 1, t.span, c.depth⟩, []⟩

/-- Reads a number of tokens. -/
def skip : Nat → Parser Unit
  | 0 => pure ()
  | n + 1 => do bump; skip n

/-- Reads the first half of a `>=`.  The second half stays behind. -/
def bumpHalf : Parser Unit := fun _ c =>
  match c.rest with
  | [] => ⟨some (), c, [.breach .token]⟩
  | t :: rest => ⟨some (), ⟨t.secondHalf :: rest, c.count + 1, t.firstHalf.span, c.depth⟩, []⟩

/-! ### Notes -/

/-- Records an event. -/
def emit (event : ParseEvent) : Parser Unit := fun _ c => ⟨some (), c, [.event event]⟩

/-- Reports a problem. -/
def report (cause : Diagnostic.Cause) (span : Span) : Parser Unit := fun _ c =>
  ⟨some (), c, [.problem (.ofCause cause span)]⟩

/-- The notes that a problem at a token is worth.  A broken token has its report already, and
the end of the input is reported once. -/
def notesAt (token : Token) (cause : Diagnostic.Cause) : List Note :=
  match token.kind with
  | .eof => [.atEnd (.ofCause cause token.span)]
  | .error e => if e.isReported then [] else [.problem (.ofCause cause token.span)]
  | _ => [.problem (.ofCause cause token.span)]

/-- Reports a problem at the next token. -/
def reportHere (cause : Diagnostic.Cause) : Parser Unit := do
  let token ← peek
  fun _ c => ⟨some (), c, notesAt token cause⟩

/-- Reports that something else was due at the next token, and gives up. -/
def unexpected (due : String) : Parser α := do
  let token ← peek
  reportHere (.expected due token.kind.name)
  abort

/-! ### Single tokens -/

/-- Whether the next token is of this kind. -/
def sees (kind : TokenKind) : Parser Bool := return (← peek).kind == kind

/-- Reads the next token if it is of this kind, and says whether it was. -/
def eat (kind : TokenKind) : Parser Bool := do
  if ← sees kind then
    bump
    pure true
  else pure false

/-- Reads a token of this kind. -/
def expect (kind : TokenKind) (due : String) : Parser Unit := do
  if ← sees kind then bump else unexpected due

/-- Reads a word spelling this keyword. -/
def expectKeyword (keyword : Keyword) : Parser Unit := do
  if (← peek).kind.keyword? == some keyword then bump
  else unexpected ("'" ++ keyword.spelling ++ "'")

/-- Reads any word as a name, keywords included. -/
def name (due : String) : Parser Name := do
  let token ← peek
  match token.kind with
  | .word text _ =>
    bump
    pure ⟨text, token.span⟩
  | _ => unexpected due

/-! ### Spans -/

/-- A place to measure from: the number of tokens read and the span of the next one. -/
structure Mark where
  count : Nat
  first : Span

/-- Marks this place. -/
def mark : Parser Mark := fun src c => ⟨some ⟨c.count, (c.rest.headD src.stop).span⟩, c, []⟩

/-- Whether a token has been read since a mark. -/
def movedFrom (m : Mark) : Parser Bool := fun _ c => ⟨some (m.count < c.count), c, []⟩

/-- The span from a mark through the last token read; empty if none was read since. -/
def spanFrom (m : Mark) : Parser Span := fun _ c =>
  ⟨some (if m.count < c.count then m.first.through c.last else m.first.atStart), c, []⟩

/-- The fragment that a span covers, as an error node. -/
def errorAt (span : Span) : Parser ErrorNode := fun src c =>
  let text := Text.slice? src.text span.start span.stop
  ⟨some ⟨span, String.ofList (text.getD [])⟩, c,
    if text.isSome then [] else [.breach (.slice span)]⟩

/-- The fragment read since a mark, as an error node. -/
def errorFrom (m : Mark) : Parser ErrorNode := do errorAt (← spanFrom m)

end Parser

end Ndf
