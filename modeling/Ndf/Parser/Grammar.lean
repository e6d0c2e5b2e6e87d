/-
# The grammar one level down

`SPEC_FULL.md` §4.3 for the leniency about commas, E5 for the parameters of types.

Expressions nest in expressions and type parameters in types.  A `Grammar` holds the parsers of
the level below the one that is being read: an expression, the operand of a sign in front of it,
and a type parameter.  All other parsers take it as an argument, so each can be read on its own;
the levels are tied together in `Ndf.Parser.Document`.

This module reads what needs nothing else: types, and the elements between brackets.
-/

import Ndf.Parser.Recovery

namespace Ndf

/-- The parsers of the level below. -/
structure Grammar where
  /-- A whole expression. -/
  expr : Parser Expr
  /-- The operand of a sign in front of it. -/
  operand : Parser Expr
  /-- A type parameter. -/
  type : Parser TypeRef

namespace Parser

open Lookahead (isJoined isKind)

/-- Reads what follows a type parameter: a comma, if any, and the closing `>`, if any.  The `>` of
a `>=` counts. -/
def typeParamEnd (read : List TypeRef) : Parser (List TypeRef ⊕ List TypeRef) := do
  let _ ← eat .comma
  match (← peek).kind with
  | .gt => do
    bump
    pure (.inr read.reverse)
  | .gtEq => do
    bumpHalf
    pure (.inr read.reverse)
  | .word .. => pure (.inl read)
  | _ => unexpected "'>' or a type name"

/-- Reads one more type parameter and what follows it. -/
def typeParamStep (g : Grammar) (read : List TypeRef) :
    Parser (List TypeRef ⊕ List TypeRef) := do
  let param ← g.type
  typeParamEnd (param :: read)

/-- Reads type parameters up to and including the closing `>`.  Commas are optional. -/
def typeParams (g : Grammar) : Parser (List TypeRef) := loop (typeParamStep g) []

/-- Reads a type: a name, and its parameters if a `<` is joined to it. -/
def typeRef (g : Grammar) : Parser TypeRef := do
  let m ← mark
  let wordClass := (← peek).kind.wordClass?.getD .name
  let name ← name "a type name"
  let ts ← ahead
  let params ← if isKind ts 0 .lt && isJoined ts 0 then do
      bump
      typeParams g
    else pure []
  pure ⟨name, wordClass, params, ← spanFrom m⟩

/-- The elements between two brackets, read so far. -/
structure Elements where
  /-- The elements, the last one first. -/
  reversed : List Expr := []
  /-- The commas passed. -/
  commas : Nat := 0
  /-- The last thing passed is an element, so a comma is due. -/
  commaDue : Bool := false

namespace Elements

/-- The elements in order. -/
def items (e : Elements) : List Expr := e.reversed.reverse

/-- The commas beyond those that separate the elements. -/
def strayCommas (e : Elements) : Nat := e.commas - (e.reversed.length - 1)

end Elements

/-- Reads one more comma or element. -/
def element (g : Grammar) (e : Elements) : Parser (Elements ⊕ Elements) := do
  let token ← peek
  match token.kind with
  | .rbracket | .eof => pure (.inr e)
  | .comma => do
    bump
    pure (.inl { e with commas := e.commas + 1, commaDue := false })
  | kind => do
    if e.commaDue then report (.expected "',' or ']'" kind.name) token.span else pure ()
    let m ← mark
    let item ← orRecover g.expr (Expr.error <$> recoverElement m)
    pure (.inl { e with reversed := item :: e.reversed, commaDue := true })

/-- Reads the elements up to the closing bracket.  Leading, doubled and trailing commas are
counted, and a missing one is reported. -/
def elements (g : Grammar) : Parser Elements := loop (element g) {}

/-- Reads elements between brackets. -/
def bracketed (g : Grammar) : Parser Elements := do
  expect .lbracket "'['"
  let e ← elements g
  expect .rbracket "']'"
  pure e

end Parser

end Ndf
