/-
# Recovery

`SPEC_FULL.md` §7, "Error handling design": the places to go on from.

Broken input is cut out up to a place where reading can go on.  How much to cut is a function of
the tokens ahead, with brackets counted so that a cut does not end inside them.

| broken | cut up to |
| --- | --- |
| item | the next declaration |
| entry of an object | its closing parenthesis or the next entry |
| element of a list | the next comma or the closing bracket |
| nested too deep | the comma or bracket that ends it, or past the bracket that it opens |
-/

import Ndf.Parser.Basic
import Ndf.Parser.Lookahead

namespace Ndf

namespace Recovery

/-- The number of tokens in front of the next declaration. -/
def itemGap : List Token → Nat
  | [] => 0
  | t :: ts => if Lookahead.startsItem (t :: ts) then 0 else itemGap ts + 1

/-- The number of tokens of the fragment that starts here, `level` brackets being open in it.  It
ends in front of a comma or closing bracket that is not its own, or behind the bracket that closes
its first one. -/
def fragment (level : Nat) : List Token → Nat
  | [] => 0
  | t :: ts =>
    match t.kind, level with
    | .comma, 0 | .rparen, 0 | .rbracket, 0 => 0
    | .lparen, _ | .lbracket, _ => fragment (level + 1) ts + 1
    | .rparen, 1 | .rbracket, 1 => 1
    | .rparen, level + 1 | .rbracket, level + 1 => fragment level ts + 1
    | _, _ => fragment level ts + 1

/-- How far a broken piece goes, and whether it ends inside what it is a part of. -/
structure Gap where
  length : Nat
  closed : Bool

/-- A gap with one more token in front. -/
def Gap.push (gap : Gap) : Gap := { gap with length := gap.length + 1 }

/-- A broken element of a list, `level` brackets being open in it.  A closing parenthesis outside
of them shows that the list itself is broken. -/
def elementGap (level : Nat) : List Token → Gap
  | [] => ⟨0, false⟩
  | t :: ts =>
    match t.kind, level with
    | .comma, 0 | .rbracket, 0 => ⟨0, true⟩
    | .rparen, 0 => ⟨0, false⟩
    | .lparen, _ | .lbracket, _ => (elementGap (level + 1) ts).push
    | .rparen, level + 1 | .rbracket, level + 1 => (elementGap level ts).push
    | _, _ => (elementGap level ts).push

/-- A broken entry of an object, `level` brackets being open in it.  A closing bracket outside of
them is part of the breakage. -/
def entryGap (level : Nat) : List Token → Gap
  | [] => ⟨0, false⟩
  | t :: ts =>
    match t.kind, level with
    | .rparen, 0 => ⟨0, true⟩
    | .lparen, _ | .lbracket, _ => (entryGap (level + 1) ts).push
    | .rparen, _ | .rbracket, _ => (entryGap (level - 1) ts).push
    | _, 0 =>
      if Lookahead.startsEntry (t :: ts) then ⟨0, true⟩ else (entryGap 0 ts).push
    | _, level => (entryGap level ts).push

end Recovery

/-- Ends with one level closed. -/
def Outcome.up {α : Type} (o : Outcome α) : Outcome α :=
  if o.cursor.depth = 0 then { o with notes := o.notes ++ [.breach .level] }
  else { o with cursor := o.cursor.up }

namespace Parser

/-- The number of levels that expressions and type parameters can be nested. -/
def maxNesting : Nat := 32

/-- Reads one token if none has been read since a mark, except in front of `keep`. -/
def leave (m : Mark) (keep : Option TokenKind) : Parser Unit := do
  if ← movedFrom m then pure ()
  else if some (← peek).kind == keep then pure ()
  else bump

/-- Cuts out a broken item that starts at a mark. -/
def recoverItem (m : Mark) : Parser ErrorNode := do
  leave m none
  skip (Recovery.itemGap (← ahead))
  let node ← errorFrom m
  emit (.recoveredItem node.span)
  pure node

/-- Cuts out a broken element of a list that starts at a mark. -/
def recoverElement (m : Mark) : Parser ErrorNode := do
  leave m (some .rparen)
  let gap := Recovery.elementGap 0 (← ahead)
  skip gap.length
  if gap.closed then errorFrom m else abort

/-- Cuts out a broken entry of an object that starts at a mark. -/
def recoverEntry (m : Mark) : Parser ErrorNode := do
  leave m (some .rparen)
  let gap := Recovery.entryGap 0 (← ahead)
  skip gap.length
  if gap.closed then
    let node ← errorFrom m
    emit (.recoveredEntry node.span)
    pure node
  else abort

/-- Cuts out and reports the fragment that starts here.  Gives up if there is none. -/
def tooDeep : Parser ErrorNode := do
  let m ← mark
  skip (Recovery.fragment 0 (← ahead))
  let node ← errorFrom m
  emit (.skipped node.span)
  report (.tooDeep maxNesting) node.span
  if ← movedFrom m then pure node else abort

/-- Reads one level deeper and closes the level again, however the reading ends.  Where no further
level is allowed, `deep` is read instead. -/
def nested {α : Type} (deep p : Parser α) : Parser α := fun src c =>
  if c.depth < maxNesting then (p src c.down).up else deep src c

end Parser

end Ndf
