/-
# The ends of canonical text

How the pieces of a node begin and how its text ends, as far as what stands next to it depends on
it.  Each node begins with a token that stands behind the white space asked for, and behind a first
word no comma comes.

`Expr.endsInDivIs` tells the one end that a comma cannot stand behind: in `x div is is` the word
`div` is an operator because of the second `is`, and in `x div is,` it is the name of an assignment.
A document is `Separable` if no parameter of a template has a value that ends so.
-/

import Ndf.Proofs.Layout.Pieces
import Ndf.Proofs.Tree.Parts

namespace Ndf

namespace Expr

/-- Whether an expression is the word `is` as a reference. -/
def isBareIs : Expr → Bool
  | .reference ⟨.none, [.name n _], _⟩ => Word.classify n.text == .keyword .is
  | _ => false

/-- Whether the text of an expression ends in the operator `div` and the word `is`. -/
def endsInDivIs : Expr → Bool
  | .unary _ operand _ => operand.endsInDivIs
  | .binary op _ right _ => (op == .div && right.isBareIs) || right.endsInDivIs
  | .ternary _ _ no _ => no.endsInDivIs
  | .assignment ⟨_, value, _⟩ => value.endsInDivIs
  | .visibility ⟨_, _, .assignment ⟨_, value, _⟩, _⟩ => value.endsInDivIs
  | _ => false

end Expr

/-- Whether the text of a declaration ends so. -/
def Declaration.endsInDivIs : Declaration → Bool
  | .assignment a => a.value.endsInDivIs
  | .template _ => false

/-- A comma can stand behind the value of each parameter. -/
def Part.Separable : Part → Prop
  | .template t => ∀ p ∈ t.params, ∀ e, p.value = some e → e.endsInDivIs = false
  | _ => True

/-- Commas can stand behind the parameters of all templates among these parts. -/
def Parts.Separable (parts : List Part) : Prop := ∀ p ∈ parts, p.Separable

/-- Commas can stand behind the parameters of all templates. -/
def Document.Separable (d : Document) : Prop := Parts.Separable d.parts

instance : DecidablePred Part.Separable
  | .template t =>
    inferInstanceAs (Decidable (∀ p ∈ t.params, ∀ e ∈ p.value, e.endsInDivIs = false))
  | .name _ | .type _ | .expr _ | .reference _ | .assignment _ | .visibility _ | .member _
  | .entry _ | .object _ | .unnamed _ | .item _ | .error _ => isTrue trivial

instance : DecidablePred Parts.Separable := fun parts =>
  inferInstanceAs (Decidable (∀ p ∈ parts, p.Separable))

instance : DecidablePred Document.Separable := fun d =>
  inferInstanceAs (Decidable (Parts.Separable d.parts))

namespace Parts

variable {p : Part} {ps qs : List Part}

@[simp] theorem separable_nil : Separable [] := nofun

@[simp] theorem separable_cons : Separable (p :: ps) ↔ p.Separable ∧ Separable ps :=
  List.forall_mem_cons

@[simp] theorem separable_append : Separable (ps ++ qs) ↔ Separable ps ∧ Separable qs :=
  List.forall_mem_append

@[simp] theorem separable_flatMap {α : Type} {f : α → List Part} {as : List α} :
    Separable (as.flatMap f) ↔ ∀ a ∈ as, Separable (f a) := by
  induction as with
  | nil => simp
  | cons a as ih => simp [ih]

@[simp] theorem separable_exprs {es : List Expr} :
    Separable (exprs es) ↔ ∀ e ∈ es, Separable (expr e) := by
  rw [exprs_eq_flatMap, separable_flatMap]

end Parts

namespace Piece

/-- Pieces the first of which stands behind this white space. -/
def Behind (blank : List Char) (ps : List Piece) : Prop :=
  ∃ p rest, ps = p :: rest ∧ p.blank = blank

/-- White space in front of some pieces is in front of more. -/
theorem Behind.append {blank : List Char} {ps : List Piece} (h : Behind blank ps)
    (qs : List Piece) : Behind blank (ps ++ qs) := by
  obtain ⟨p, rest, rfl, hp⟩ := h
  exact ⟨p, rest ++ qs, rfl, hp⟩

end Piece

namespace Layout.Pieces

open Piece (Behind)

variable {m : Margin} {blank : List Char}

/-- The first piece stands behind its own. -/
theorem behind_cons {p : Piece} {ps : List Piece} (h : p.blank = blank) : Behind blank (p :: ps) :=
  ⟨p, ps, rfl, h⟩

/-- The first segment of a path stands behind what is asked for. -/
theorem segments_behind (before : Option SegmentKind) {segs : List Segment} (h : segs ≠ []) :
    Behind blank (segments m before blank segs) := by
  cases segs with
  | nil => exact absurd rfl h
  | cons seg segs =>
    cases seg with
    | name n kind => rcases before with _ | _ | _ | _ <;> exact behind_cons rfl
    | index e => exact behind_cons rfl

/-- So does a reference, with its scope or without. -/
theorem reference_behind (r : Reference) : Behind blank (reference m blank r) := by
  obtain ⟨_ | _ | _ | _, segs, s⟩ := r
  case none =>
    cases segs with
    | nil => exact behind_cons rfl
    | cons _ _ => exact segments_behind none (List.cons_ne_nil _ _)
  all_goals exact behind_cons rfl

/-- So does an expression. -/
theorem expr_behind (m : Margin) (blank : List Char) : ∀ e, Behind blank (expr m blank e)
  | .nil _ | .bool .. | .number .. | .string .. | .object ⟨_, _, _⟩ | .vector .. | .list ..
  | .map .. | .pair .. | .unary .. | .group .. | .generic .. | .guid .. | .assignment ⟨_, _, _⟩
  | .visibility ⟨_, _, _, _⟩ | .error _ => behind_cons rfl
  | .reference r => reference_behind r
  | .binary _ l _ _ => (expr_behind m blank l).append _
  | .ternary c _ _ _ => (expr_behind m blank c).append _

/-- So does an entry. -/
theorem entry_behind : ∀ e, Behind blank (entry m blank e)
  | .member ⟨_, _, _, _, _⟩ | .assignment ⟨_, _, _⟩ | .visibility ⟨_, _, _, _⟩ | .error _ =>
    behind_cons rfl
  | .reference r => reference_behind r

/-- So does an item. -/
theorem item_behind : ∀ i, Behind blank (item m blank i)
  | .member ⟨_, _, _, _, _⟩ | .assignment ⟨_, _, _⟩ | .visibility ⟨_, _, _, _⟩ | .error _
  | .template ⟨_, _, _, _⟩ | .unnamed _ => behind_cons rfl
  | .expr e => expr_behind m blank e

/-- How the pieces of an expression begin: behind a first word nothing ends, and a word alone spells
`is` only if the expression is `bare`. -/
def Begins (bare : Bool) : List Piece → Prop
  | [] => False
  | [p] => p.kind.wordClass? = some (.keyword .is) → bare = true
  | p :: q :: _ => p.kind.isWord = true → q.kind ≠ .comma ∧ q.kind ≠ .rbracket

/-- With an operator behind it, a left side begins as it did. -/
theorem Begins.operator {bare bare' : Bool} {ps qs : List Piece} {p : Piece}
    (h : Begins bare ps) (hp : p.kind ≠ .comma ∧ p.kind ≠ .rbracket) :
    Begins bare' (ps ++ p :: qs) := by
  match ps, h with
  | [_], _ => exact fun _ => hp
  | _ :: _ :: _, h => exact h

/-- What begins with a sign may stand behind anything. -/
theorem begins_of_sign {bare : Bool} {p : Piece} (hp : p.kind.isWord = false) :
    ∀ ps, Begins bare (p :: ps)
  | [] => fun h => by
    rw [TokenKind.isWord, h] at hp
    cases hp
  | _ :: _ => fun h => absurd (hp.symm.trans h) Bool.false_ne_true

/-- No operator is a comma or a closing bracket. -/
theorem token_ne_end (op : BinaryOp) : op.token ≠ .comma ∧ op.token ≠ .rbracket := by
  cases op <;> simp [BinaryOp.token]

/-- Behind the name of a reference comes a sign, if anything. -/
theorem reference_begins (n : Name) (kind : SegmentKind) (s : Span) : ∀ segs : List Segment,
    Begins (Expr.reference ⟨.none, .name n kind :: segs, s⟩).isBareIs
      (reference m blank ⟨.none, .name n kind :: segs, s⟩)
  | [] => fun h => beq_iff_eq.2 (Option.some.inj h)
  | .index _ :: _ => fun _ => ⟨nofun, nofun⟩
  | .name _ _ :: _ => by cases kind <;> exact fun _ => ⟨nofun, nofun⟩

/-- An expression begins with a word and a comma only if it is the word `is` alone. -/
theorem expr_begins : ∀ e, Begins e.isBareIs (expr m blank e)
  | .nil _ | .bool true _ | .bool false _ => fun h => absurd (Option.some.inj h) (by decide)
  | .number .. | .string .. | .error _ | .reference ⟨.none, [], _⟩ => fun h => nomatch h
  | .object ⟨_, [], _⟩ | .object ⟨_, _ :: _, _⟩ | .vector .. | .map .. | .guid ..
  | .assignment ⟨_, _, _⟩ | .visibility ⟨_, _, .assignment ⟨_, _, _⟩, _⟩
  | .visibility ⟨_, _, .template ⟨_, _, _, _⟩, _⟩ => fun _ => ⟨nofun, nofun⟩
  | .list .. | .pair .. | .unary .neg .. | .unary .not .. | .group .. | .generic ..
  | .reference ⟨.current, _, _⟩ | .reference ⟨.root, _, _⟩ | .reference ⟨.global, _, _⟩
  | .reference ⟨.none, .index _ :: _, _⟩ => begins_of_sign rfl _
  | .reference ⟨.none, .name n kind :: segs, s⟩ => reference_begins n kind s segs
  | .binary _ l _ _ => (expr_begins l).operator (token_ne_end _)
  | .ternary c _ _ _ => (expr_begins c).operator ⟨nofun, nofun⟩

end Layout.Pieces

end Ndf
