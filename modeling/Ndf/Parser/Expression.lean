/-
# Expressions

`SPEC_FULL.md` §4.3, "Expression Parser", with the declarations and pairs of E5.

Operands are literals, references, objects and everything in brackets; a sign in front binds
tighter than any operator between.  Operators are read by precedence climbing: from the loosest,
`?:`, over `|`, `&`, comparisons and sums to products.  All but `?:` associate to the left.

What a word starts is told by its class and by the token behind it: `Name(` is an object, `Name[`
a vector or a path, and a modifier or a word before `is` a declaration used as a value.
-/

import Ndf.Parser.Declaration

namespace Ndf
namespace Parser

open Lookahead (isJoined isKind isWord)

/-! ### Operands -/

/-- Reads `[items]`. -/
def list (g : Grammar) : Parser Expr := do
  let m ← mark
  let e ← bracketed g
  pure (.list e.items e.strayCommas (← spanFrom m))

/-- Reads `Type[items]` for a built-in type. -/
def vector (g : Grammar) (type : VectorType) : Parser Expr := do
  let m ← mark
  let name ← name "a vector type"
  let e ← bracketed g
  pure (.vector name (some type) e.items e.strayCommas (← spanFrom m))

/-- Keeps the pairs of a map.  Anything else is reported and becomes an error node. -/
def pairs : List Expr → Parser (List Expr)
  | [] => pure []
  | item :: rest => do
    let entry ← match item with
      | .pair .. | .error _ => pure item
      | _ => do
        report (.noPair item.typeName) item.span
        Expr.error <$> errorAt item.span
    pure (entry :: (← pairs rest))

/-- Reads `MAP[pairs]`. -/
def map (g : Grammar) : Parser Expr := do
  let m ← mark
  let keyword ← name "'MAP'"
  let e ← bracketed g
  let pairs ← pairs e.items
  pure (.map keyword pairs (← spanFrom m))

/-- Reads `()`, `(inner)` or `(left, right)`. -/
def parenthesised (g : Grammar) : Parser Expr := do
  let m ← mark
  expect .lparen "'('"
  if ← eat .rparen then pure (.group none (← spanFrom m))
  else
    let first ← g.expr
    if ← eat .comma then
      let second ← g.expr
      expect .rparen "')'"
      pure (.pair first second (← spanFrom m))
    else
      expect .rparen "',' or ')'"
      pure (.group (some first) (← spanFrom m))

/-- Reads `[index]` if a bracket is joined here. -/
def index? (g : Grammar) : Parser (Option Expr) := do
  let ts ← ahead
  if isKind ts 0 .lbracket && isJoined ts 0 then
    bump
    let index ← g.expr
    expect .rbracket "']'"
    pure (some index)
  else pure none

/-- Reads `<Name>` or `<Name>[index]`, all of it joined. -/
def generic (g : Grammar) : Parser Expr := do
  let m ← mark
  expect .lt "'<'"
  let ts ← ahead
  if isWord ts 0 && isJoined ts 0 then
    let name ← name "a generic name"
    let ts ← ahead
    if isKind ts 0 .gt && isJoined ts 0 then
      bump
      let index ← index? g
      pure (.generic name index (← spanFrom m))
    else unexpected "'>' directly after the generic name"
  else unexpected "a name directly after '<'"

/-- Reads `guid:` and its payload. -/
def guid : Parser Expr := do
  let m ← mark
  bump
  expect .colon "':'"
  match (← peek).kind with
  | .guidBody raw => do
    bump
    pure (.guid raw (← spanFrom m))
  | .error .unterminatedBrace => do
    bump
    pure (.error (← errorFrom m))
  | _ => unexpected "'\x7b' after 'guid:'"

/-- Reads a word that means itself. -/
def constant (value : Span → Expr) : Parser Expr := do
  let span := (← peek).span
  bump
  pure (value span)

/-- Reads an object, a vector or a reference, told apart by what follows the name. -/
def nameLed (g : Grammar) : Parser Expr := do
  let ts ← ahead
  if isKind ts 1 .lparen then Expr.object <$> object g
  else if isKind ts 1 .lbracket && isJoined ts 1 then vectorOrPath g
  else Expr.reference <$> reference g

/-- Reads an operand that starts with a word of the given class. -/
def wordLed (g : Grammar) (wordClass : WordClass) : Parser Expr := do
  let ts ← ahead
  if Lookahead.startsAssignment ts 0 then Expr.assignment <$> assignment g
  else if Lookahead.startsVisibility ts 0 then Expr.visibility <$> visibility g (object g)
  else
    match wordClass with
    | .keyword .nil => constant .nil
    | .keyword .true => constant (.bool true)
    | .keyword .false => constant (.bool false)
    | .keyword .guid => if isKind ts 1 .colon then guid else nameLed g
    | .vector .map => if isKind ts 1 .lbracket then map g else nameLed g
    | .vector type => if isKind ts 1 .lbracket then vector g type else nameLed g
    | _ => nameLed g

/-- Reads a broken token.  A stray character is reported here, all else has been before. -/
def brokenToken (e : LexError) : Parser Expr := do
  let m ← mark
  let span := (← peek).span
  bump
  match e with
  | .unexpectedChar c => report (.strayCharacter c) span
  | _ => pure ()
  pure (.error (← errorFrom m))

/-- Gives up because nothing that starts here is an expression. -/
def noExpression : Parser Expr := do
  reportHere (.noExpression (← peek).kind.name)
  abort

/-- Reads an operand without a sign. -/
def primary (g : Grammar) : Parser Expr := do
  let token ← peek
  match token.kind with
  | .number kind text => do
    bump
    pure (.number kind text token.span)
  | .string quote raw => do
    bump
    pure (.string quote raw token.span)
  | .lbracket => list g
  | .lparen => parenthesised g
  | .lt => generic g
  | .word _ wordClass => wordLed g wordClass
  | .error e => brokenToken e
  | .eof => unexpected "an expression"
  | _ => do
    if Lookahead.startsScoped (← ahead) then Expr.reference <$> reference g
    else noExpression

/-- Reads an operand with the signs in front of it. -/
def unary (g : Grammar) : Parser Expr := do
  let m ← mark
  match (← peek).kind with
  | .minus => do
    bump
    let operand ← g.operand
    pure (.unary .neg operand (← spanFrom m))
  | .bang => do
    bump
    let operand ← g.operand
    pure (.unary .not operand (← spanFrom m))
  | _ => primary g

/-! ### Operators -/

/-- What can stand behind an operand. -/
inductive Operator where
  | binary (op : BinaryOp)
  | question
deriving DecidableEq, Repr

/-- The operator that the tokens ahead start with.  The word `div` is one, unless it is the name of
a declaration or a member that starts here. -/
def operator? (ts : List Token) : Option Operator :=
  match Lookahead.kind? ts 0 with
  | some .question => some .question
  | some .pipe => some (.binary .or)
  | some .amp => some (.binary .and)
  | some .eqEq => some (.binary .eq)
  | some .notEq => some (.binary .notEq)
  | some .lt => some (.binary .lt)
  | some .ltEq => some (.binary .ltEq)
  | some .gt => some (.binary .gt)
  | some .gtEq => some (.binary .gtEq)
  | some .plus => some (.binary .add)
  | some .minus => some (.binary .sub)
  | some .star => some (.binary .mul)
  | some .percent => some (.binary .rem)
  | some (.word _ (.keyword .div)) =>
    if Lookahead.startsAssignment ts 0 || Lookahead.startsMember ts 0 then none
    else some (.binary .div)
  | _ => none

end Parser

/-- How tightly an operator binds.  The operator `?:` has rank zero. -/
def BinaryOp.rank : BinaryOp → Nat
  | .or => 1
  | .and => 2
  | .eq | .notEq | .lt | .ltEq | .gt | .gtEq => 3
  | .add | .sub => 4
  | .mul | .div | .rem => 5

namespace Parser

/-- The number of ranks, that of `?:` included. -/
def ranks : Nat := 6

end Parser

/-- The lowest rank is left for choices. -/
theorem BinaryOp.rank_pos (op : BinaryOp) : 0 < op.rank := by
  cases op <;> decide

/-- The highest is left for operands. -/
theorem BinaryOp.rank_lt (op : BinaryOp) : op.rank < Parser.ranks := by
  cases op <;> decide

namespace Parser

/-- Reads one more operator and its right side, if its rank is at least `loosest`.  `left` is what
has been read since the mark, and `right` reads an operand of operators of at least a rank. -/
def operation (g : Grammar) (right : Nat → Parser Expr) (loosest : Nat) (m : Mark) (left : Expr) :
    Parser (Expr ⊕ Expr) := do
  match operator? (← ahead) with
  | none => pure (.inr left)
  | some .question =>
    if loosest = 0 then
      bump
      let yes ← g.expr
      expect .colon "':' in conditional expression"
      let no ← g.expr
      pure (.inl (.ternary left yes no (← spanFrom m)))
    else pure (.inr left)
  | some (.binary op) =>
    if loosest ≤ op.rank then
      bump
      let right ← right (op.rank + 1)
      pure (.inl (.binary op left right (← spanFrom m)))
    else pure (.inr left)

/-- Reads operands joined by operators of rank `loosest` or tighter.  The right side of an operator
holds tighter ones only, so the first argument, which counts such steps, is never used up. -/
def climb (g : Grammar) : Nat → Nat → Parser Expr
  | 0, _ => unary g
  | steps + 1, loosest => do
    let m ← mark
    let left ← unary g
    loop (operation g (climb g steps) loosest m) left

/-- Reads an expression. -/
def expression (g : Grammar) : Parser Expr := climb g ranks 0

end Parser
end Ndf
