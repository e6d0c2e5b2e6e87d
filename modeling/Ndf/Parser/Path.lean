/-
# References

`SPEC_FULL.md` §4.4, "Reference Chain Parser".

A reference is a name and what is directly joined to it: `/name`, `.name` or `[index]`, again and
again.  Any gap ends it.  The suffixes are read first and the kinds of the names are settled
afterwards: a name takes the kind of the sign behind it and, if there is none, of the sign before
it.
-/

import Ndf.Parser.Grammar

namespace Ndf

/-- What can be joined to a name. -/
inductive Suffix where
  | joined (kind : SegmentKind) (name : Name)
  | index (index : Expr)

namespace Suffix

/-- The kind of the first sign among some suffixes. -/
def firstKind : List Suffix → Option SegmentKind
  | [] => none
  | .joined kind _ :: _ => some kind
  | .index _ :: rest => firstKind rest

/-- The segments of suffixes. -/
def segments : List Suffix → List Segment
  | [] => []
  | .joined kind name :: rest => .name name ((firstKind rest).getD kind) :: segments rest
  | .index e :: rest => .index e :: segments rest

end Suffix

/-- The segments of a name with suffixes.  `kind` is that of the name if it stays alone. -/
def Reference.segmentsOf (name : Name) (kind : SegmentKind) (suffixes : List Suffix) :
    List Segment :=
  .name name ((Suffix.firstKind suffixes).getD kind) :: Suffix.segments suffixes

namespace Parser

/-- Reads one suffix, if one is joined here. -/
def suffix (g : Grammar) (read : List Suffix) : Parser (List Suffix ⊕ List Suffix) := do
  if Lookahead.continuesPath (← ahead) then
    match (← peek).kind with
    | .lbracket => do
      bump
      let index ← g.expr
      expect .rbracket "']'"
      pure (.inl (.index index :: read))
    | .slash => do
      bump
      pure (.inl (.joined .nested (← name "a name") :: read))
    | _ => do
      bump
      pure (.inl (.joined .member (← name "a name") :: read))
  else pure (.inr read.reverse)

/-- Reads all suffixes that are joined here. -/
def suffixes (g : Grammar) : Parser (List Suffix) := loop (suffix g) []

/-- The scope that a token marks. -/
def scopeOf : TokenKind → Scope
  | .dot => .current
  | .tilde => .root
  | .dollar => .global
  | _ => .none

/-- Reads the mark of a scope and its slash. -/
def scopeMark : Parser Unit := do
  bump
  let ts ← ahead
  if Lookahead.isKind ts 0 .slash && Lookahead.isJoined ts 0 then bump
  else unexpected "'/' directly after the scope marker"
  let ts ← ahead
  if Lookahead.isWord ts 0 && Lookahead.isJoined ts 0 then pure ()
  else unexpected "a name directly after the scope"

/-- Reads a reference. -/
def reference (g : Grammar) : Parser Reference := do
  let m ← mark
  let scope := scopeOf (← peek).kind
  if scope ≠ .none then scopeMark else pure ()
  let name ← name "a reference name"
  let suffixes ← suffixes g
  let kind : SegmentKind := if scope = .none then .terminal else .nested
  pure ⟨scope, Reference.segmentsOf name kind suffixes, ← spanFrom m⟩

/-- Reads `Name[…]`, the bracket being joined.  It is a vector, unless there is exactly one
element, no stray comma, and the path goes on behind the bracket: then it is a reference. -/
def vectorOrPath (g : Grammar) : Parser Expr := do
  let m ← mark
  let name ← name "a vector type"
  let e ← bracketed g
  let span ← spanFrom m
  let ts ← ahead
  match e.items with
  | [index] =>
    if e.strayCommas = 0 ∧ Lookahead.continuesPath ts then
      let suffixes ← suffixes g
      pure (.reference
        ⟨.none, Reference.segmentsOf name .terminal (.index index :: suffixes), ← spanFrom m⟩)
    else pure (.vector name none [index] e.strayCommas span)
  | items => pure (.vector name none items e.strayCommas span)

end Parser

end Ndf
