/-
# Chains of operands and operators

Operators that are not kept apart by brackets make one chain with their operands.  `Expr.chain`
lists it in the order in which it is written, and a table of precedence tells which tree it is:
`BinaryOp.table` holds the operators from the loosest line to the tightest, `Expr.Binds` says what
it asks of one operator, and `Expr.Ranked` of all operators of a chain.

The parser climbs by ranks, which are the lines of the table (`BinaryOp.looser_iff`), so what the
table asks of one operator is a comparison of ranks (`Expr.binds_binary_iff` and its neighbours).

Two ranked trees with one chain are the same tree (`skeleton_eq_of_chain_eq`), for the chain shows
the operator at the root: a `?:` if there is any `?`, and then the first one, and otherwise the last
one of the loosest rank.  The signs alone are enough, since a minus is a sign of its operand exactly
where an operand is due (`chain_eq_of_symbols_eq`).
-/

import Mathlib.Data.List.Basic
import Ndf.Parser.Expression

namespace Ndf

namespace BinaryOp

/-- The operators between two operands, from the loosest line to the tightest.  Those of one line
bind alike. -/
def table : List (List BinaryOp) :=
  [[.or],
   [.and],
   [.eq, .notEq, .lt, .ltEq, .gt, .gtEq],
   [.add, .sub],
   [.mul, .div, .rem]]

/-- The line of the table that holds an operator. -/
def line (op : BinaryOp) : Nat := table.findIdx (·.contains op)

/-- An operator stands in an earlier line of the table than another one. -/
def Looser (op op' : BinaryOp) : Prop := op.line < op'.line

end BinaryOp

namespace Expr

/-- The operator between the two operands that an expression is made of. -/
def operator? : Expr → Option BinaryOp
  | .binary op .. => some op
  | _ => none

/-- Whether an expression is a `?:`. -/
def isTernary : Expr → Bool
  | .ternary .. => true
  | _ => false

/-- What the table asks of the operands of an operator.  An operator on its left is no looser and
one on its right is tighter, and neither side is a `?:`; a sign holds neither; and the condition of
a `?:` is no other one. -/
def Binds : Expr → Prop
  | .binary op left right _ =>
    ((∀ op', left.operator? = some op' → ¬ op'.Looser op) ∧ left.isTernary = false) ∧
      (∀ op', right.operator? = some op' → op.Looser op') ∧ right.isTernary = false
  | .unary _ operand _ => operand.operator? = none ∧ operand.isTernary = false
  | .ternary condition _ _ _ => condition.isTernary = false
  | _ => True

/-- All operators of a chain bind as the table says. -/
def Ranked : Expr → Prop
  | .unary op operand s => Binds (.unary op operand s) ∧ operand.Ranked
  | .binary op left right s => Binds (.binary op left right s) ∧ left.Ranked ∧ right.Ranked
  | .ternary condition yes no s =>
    Binds (.ternary condition yes no s) ∧ condition.Ranked ∧ yes.Ranked ∧ no.Ranked
  | _ => True

/-- An expression without the spans of the operators of its chain. -/
def skeleton : Expr → Expr
  | .unary op operand _ => .unary op operand.skeleton .zero
  | .binary op left right _ => .binary op left.skeleton right.skeleton .zero
  | .ternary condition yes no _ => .ternary condition.skeleton yes.skeleton no.skeleton .zero
  | e => e

end Expr

/-! ### Lines of the table as ranks -/

/-- The ranks by which operators are read count the lines of the table. -/
theorem BinaryOp.rank_eq_line (op : BinaryOp) : op.rank = op.line + 1 := by
  cases op <;> rfl

/-- An operator binds looser than another one exactly if it is of a lower rank. -/
theorem BinaryOp.looser_iff {op op' : BinaryOp} : op.Looser op' ↔ op.rank < op'.rank := by
  rw [Looser, rank_eq_line, rank_eq_line, Nat.add_lt_add_iff_right]

namespace Expr

/-- How tightly an expression holds together: as its operator binds, and tighter than any operator
if it has none between operands. -/
def rank : Expr → Nat
  | .ternary .. => 0
  | .binary op .. => op.rank
  | _ => Parser.ranks

/-- Only a `?:` is of rank zero. -/
theorem rank_pos_iff {e : Expr} : 0 < e.rank ↔ e.isTernary = false := by
  cases e with
  | binary op => simp [rank, isTernary, op.rank_pos]
  | _ => simp [rank, isTernary, Parser.ranks]

/-- An expression holds together as tightly as an operator binds if its own one is no looser. -/
theorem le_rank_iff {e : Expr} {op : BinaryOp} : op.rank ≤ e.rank ↔
    (∀ op', e.operator? = some op' → ¬ op'.Looser op) ∧ e.isTernary = false := by
  have positive := op.rank_pos
  have bounded := op.rank_lt
  cases e with
  | binary op' => simp [rank, isTernary, operator?, BinaryOp.looser_iff]
  | ternary => simp [rank, isTernary, operator?]; omega
  | _ => simp [rank, isTernary, operator?]; omega

/-- An expression holds together tighter than an operator binds if its own one is tighter. -/
theorem lt_rank_iff {e : Expr} {op : BinaryOp} : op.rank < e.rank ↔
    (∀ op', e.operator? = some op' → op.Looser op') ∧ e.isTernary = false := by
  have bounded := op.rank_lt
  cases e with
  | binary op' => simp [rank, isTernary, operator?, BinaryOp.looser_iff]
  | ternary => simp [rank, isTernary, operator?]
  | _ => simpa [rank, isTernary, operator?] using bounded

/-- An expression without an operator between operands holds together tightest. -/
theorem rank_eq_ranks_iff {e : Expr} :
    e.rank = Parser.ranks ↔ e.operator? = none ∧ e.isTernary = false := by
  cases e with
  | binary op => simp [rank, operator?, Nat.ne_of_lt op.rank_lt]
  | _ => simp [rank, operator?, isTernary, Parser.ranks]

/-- An operator of two operands binds as its rank says, to the left among equals. -/
theorem binds_binary_iff {op : BinaryOp} {left right : Expr} {s : Span} :
    (binary op left right s).Binds ↔ op.rank ≤ left.rank ∧ op.rank < right.rank :=
  and_congr le_rank_iff.symm lt_rank_iff.symm

/-- A sign takes an operand without operators. -/
theorem binds_unary_iff {op : UnaryOp} {operand : Expr} {s : Span} :
    (unary op operand s).Binds ↔ operand.rank = Parser.ranks :=
  rank_eq_ranks_iff.symm

/-- What is asked in a choice is no choice itself; its branches may be any expressions. -/
theorem binds_ternary_iff {condition yes no : Expr} {s : Span} :
    (ternary condition yes no s).Binds ↔ 0 < condition.rank :=
  rank_pos_iff.symm

end Expr

/-- A part of a chain. -/
inductive Link where
  | operand (e : Expr)
  | unary (op : UnaryOp)
  | binary (op : BinaryOp)
  | question
  | colon

namespace Link

/-- An operand, or the sign that is written. -/
def symbol : Link → Expr ⊕ String
  | .operand e => .inl e
  | .unary op => .inr op.sign
  | .binary op => .inr op.sign
  | .question => .inr "?"
  | .colon => .inr ":"

/-- The rank of an operator, and that of an operand for what belongs to one. -/
def rank : Link → Nat
  | .binary op => op.rank
  | .question | .colon => 0
  | .operand _ | .unary _ => Parser.ranks

end Link

namespace Expr

/-- The operands and operators of an expression as they are written. -/
def chain : Expr → List Link
  | .unary op operand _ => .unary op :: operand.chain
  | .binary op left right _ => left.chain ++ .binary op :: right.chain
  | .ternary condition yes no _ =>
    condition.chain ++ .question :: (yes.chain ++ .colon :: no.chain)
  | e => [.operand e]

/-- The operands and signs of an expression as they are written. -/
def symbols (e : Expr) : List (Expr ⊕ String) := e.chain.map Link.symbol

end Expr

/-! ### Signs tell the operators -/

namespace Link

/-- Whether it stands where an operand is due. -/
def opens : Link → Bool
  | .operand _ | .unary _ => true
  | .binary _ | .question | .colon => false

/-- Whether an operand is due behind it. -/
def leads : Link → Bool
  | .operand _ => false
  | .unary _ | .binary _ | .question | .colon => true

/-- Where an operand is due, and where none is, a sign tells the operator. -/
theorem eq_of_symbol {l l' : Link} (ho : l.opens = l'.opens) (hs : l.symbol = l'.symbol) :
    l = l' := by
  have sign (op : BinaryOp) : op.sign ≠ "?" ∧ op.sign ≠ ":" := by cases op <;> decide
  cases l <;> cases l' <;> cases ho
  · exact congrArg _ (Sum.inl.inj hs)
  · cases hs
  · cases hs
  · exact congrArg _ (UnaryOp.sign_injective (Sum.inr.inj hs))
  · exact congrArg _ (BinaryOp.sign_injective (Sum.inr.inj hs))
  · exact absurd (Sum.inr.inj hs) (sign _).1
  · exact absurd (Sum.inr.inj hs) (sign _).2
  · exact absurd (Sum.inr.inj hs).symm (sign _).1
  · rfl
  · exact absurd (Sum.inr.inj hs) (by decide)
  · exact absurd (Sum.inr.inj hs).symm (sign _).2
  · exact absurd (Sum.inr.inj hs) (by decide)
  · rfl

end Link

/-- Operands stand where they are due, and operators between them.  `due` says whether one is due
first. -/
def Alternates : Bool → List Link → Prop
  | _, [] => True
  | due, l :: rest => l.opens = due ∧ Alternates l.leads rest

/-- Where operands alternate with operators, the signs tell which is which. -/
theorem Alternates.eq_of_symbols {due : Bool} {ls ls' : List Link} (h : Alternates due ls)
    (h' : Alternates due ls') (hs : ls.map Link.symbol = ls'.map Link.symbol) : ls = ls' := by
  induction ls generalizing due ls' with
  | nil => exact (List.map_eq_nil_iff.1 hs.symm).symm
  | cons l ls ih =>
    obtain ⟨l', ls', rfl⟩ := List.exists_cons_of_ne_nil (l := ls') (by rintro rfl; cases hs)
    obtain ⟨hl, hrest⟩ := List.cons.inj hs
    obtain rfl := Link.eq_of_symbol (h.1.trans h'.1.symm) hl
    rw [ih h.2 h'.2 hrest]

namespace Expr

/-- Operands and operators alternate in the chain of an expression. -/
theorem chain_alternates (e : Expr) {rest : List Link} (h : Alternates false rest) :
    Alternates true (e.chain ++ rest) := by
  fun_induction chain e generalizing rest with
  | case1 op operand s ih => exact ⟨rfl, ih h⟩
  | case2 op left right s ihl ihr =>
    rw [List.append_assoc]
    exact ihl ⟨rfl, ihr h⟩
  | case3 condition yes no s ihc ihy ihn =>
    rw [List.append_assoc, List.cons_append, List.append_assoc]
    exact ihc ⟨rfl, ihy ⟨rfl, ihn h⟩⟩
  | case4 e => exact ⟨rfl, h⟩

/-- A minus in front of an operand is not one between two. -/
theorem chain_eq_of_symbols_eq {e e' : Expr} (h : e.symbols = e'.symbols) : e.chain = e'.chain := by
  have alternates (e : Expr) : Alternates true e.chain := by
    have h := chain_alternates e (show Alternates false [] from trivial)
    rwa [List.append_nil] at h
  exact (alternates e).eq_of_symbols (alternates e') h

/-! ### The operator at the root -/

/-- An expression without an operator has the highest rank. -/
theorem rank_le_ranks (e : Expr) : e.rank ≤ Parser.ranks := by
  cases e with
  | binary op => exact Nat.le_of_lt op.rank_lt
  | ternary => exact Nat.zero_le _
  | _ => exact Nat.le_refl _

/-- No operator of a ranked tree is looser than the one at its root. -/
theorem Ranked.rank_le {e : Expr} (h : e.Ranked) : ∀ l ∈ e.chain, e.rank ≤ l.rank := by
  fun_induction chain e with
  | case1 op operand s ih =>
    obtain ⟨hb, ho⟩ := h
    refine List.forall_mem_cons.2 ⟨Nat.le_refl _, fun l hl => ?_⟩
    have := ih ho l hl
    rwa [binds_unary_iff.1 hb] at this
  | case2 op left right s ihl ihr =>
    obtain ⟨hb, hl, hr⟩ := h
    obtain ⟨hle, hlt⟩ := binds_binary_iff.1 hb
    refine List.forall_mem_append.2 ⟨fun l hmem => Nat.le_trans hle (ihl hl l hmem),
      List.forall_mem_cons.2 ⟨Nat.le_refl _, fun l hmem =>
        Nat.le_trans (Nat.le_of_lt hlt) (ihr hr l hmem)⟩⟩
  | case3 => exact fun _ _ => Nat.zero_le _
  | case4 e =>
    rw [List.forall_mem_singleton]
    exact e.rank_le_ranks

/-- The operator at the root is in the chain. -/
theorem exists_link (e : Expr) : ∃ l ∈ e.chain, l.rank = e.rank := by
  cases e with
  | binary op => exact ⟨.binary op, by simp [chain], rfl⟩
  | ternary => exact ⟨.question, by simp [chain], rfl⟩
  | _ => exact ⟨_, List.mem_cons_self .., rfl⟩

/-- A chain tells how tightly it holds together. -/
theorem Ranked.rank_eq {e e' : Expr} (h : e.Ranked) (h' : e'.Ranked) (hc : e.chain = e'.chain) :
    e.rank = e'.rank := by
  have le {e e' : Expr} (h : e.Ranked) (hc : e.chain = e'.chain) : e.rank ≤ e'.rank := by
    obtain ⟨l, hl, hr⟩ := e'.exists_link
    exact hr ▸ h.rank_le l (hc ▸ hl)
  exact Nat.le_antisymm (le h hc) (le h' hc.symm)

/-! ### Its operands -/

/-- On the left of an operator that is the last one of the loosest rank stands one chain. -/
theorem Ranked.binary_split {left right left' right' : Expr} {op op' : BinaryOp} {s s' : Span}
    (h : (binary op left right s).Ranked) (h' : (binary op' left' right' s').Ranked)
    (hc : (binary op left right s).chain = (binary op' left' right' s').chain) :
    left.chain = left'.chain ∧ op = op' ∧ right.chain = right'.chain := by
  -- If one of the two stood behind the other, it would be looser on the left and tighter on the
  -- right.
  have apart {left right left' right' : Expr} {op op' : BinaryOp} {s s' : Span} {mid : List Link}
      (h : (binary op left right s).Ranked) (h' : (binary op' left' right' s').Ranked)
      (hl : left.chain = left'.chain ++ mid) (hr : .binary op' :: right'.chain =
        mid ++ .binary op :: right.chain) : mid = [] := by
    by_contra hne
    obtain ⟨l, mid, rfl⟩ := List.exists_cons_of_ne_nil hne
    obtain ⟨rfl, hright⟩ := List.cons.inj hr
    have hmem : .binary op' ∈ left.chain := by simp [hl]
    have hmem' : .binary op ∈ right'.chain := by simp [hright]
    have hle : op.rank ≤ op'.rank :=
      Nat.le_trans (binds_binary_iff.1 h.1).1 (h.2.1.rank_le _ hmem)
    have hlt : op'.rank < op.rank :=
      Nat.lt_of_lt_of_le (binds_binary_iff.1 h'.1).2 (h'.2.2.rank_le _ hmem')
    omega
  rcases List.append_eq_append_iff.1 hc with ⟨mid, hl, hr⟩ | ⟨mid, hl, hr⟩
  · obtain rfl := apart h' h hl hr
    obtain ⟨ho, hright⟩ := List.cons.inj hr
    exact ⟨by simpa using hl.symm, Link.binary.inj ho, hright⟩
  · obtain rfl := apart h h' hl hr
    obtain ⟨ho, hright⟩ := List.cons.inj hr
    exact ⟨by simpa using hl, (Link.binary.inj ho).symm, hright.symm⟩

end Expr

namespace Link

/-- What stands in front of the colon that belongs to none of the `?` from here on, nor to `depth`
more. -/
def branch : Nat → List Link → List Link
  | _, [] => []
  | depth, .question :: rest => .question :: branch (depth + 1) rest
  | 0, .colon :: _ => []
  | depth + 1, .colon :: rest => .colon :: branch depth rest
  | depth, l :: rest => l :: branch depth rest

/-- Each `?` of a chain has its colon there. -/
theorem branch_chain (e : Expr) (depth : Nat) (rest : List Link) :
    branch depth (e.chain ++ rest) = e.chain ++ branch depth rest := by
  fun_induction Expr.chain e generalizing depth rest with
  | case1 op operand s ih => simp [branch, ih]
  | case2 op left right s ihl ihr => simp [branch, ihl, ihr]
  | case3 condition yes no s ihc ihy ihn => simp [branch, ihc, ihy, ihn]
  | case4 e => simp [branch]

end Link

namespace Expr

/-- The first `?` of a chain parts the condition from the branches, and its colon parts these. -/
theorem Ranked.ternary_split {c y n c' y' n' : Expr} {s s' : Span} (h : (ternary c y n s).Ranked)
    (h' : (ternary c' y' n' s').Ranked)
    (hc : (ternary c y n s).chain = (ternary c' y' n' s').chain) :
    c.chain = c'.chain ∧ y.chain = y'.chain ∧ n.chain = n'.chain := by
  have first {c y n c' : Expr} {s : Span} {mid rest rest' : List Link}
      (h : (ternary c y n s).Ranked) (hl : c.chain = c'.chain ++ mid)
      (hr : Link.question :: rest' = mid ++ Link.question :: rest) : mid = [] := by
    by_contra hne
    obtain ⟨l, mid, rfl⟩ := List.exists_cons_of_ne_nil hne
    obtain ⟨rfl, -⟩ := List.cons.inj hr
    have hmem : .question ∈ c.chain := by simp [hl]
    exact absurd (h.2.1.rank_le _ hmem) (Nat.not_le_of_lt (binds_ternary_iff.1 h.1))
  have branches (hb : y.chain ++ .colon :: n.chain = y'.chain ++ .colon :: n'.chain) :
      y.chain = y'.chain ∧ n.chain = n'.chain := by
    have hy : y.chain = y'.chain := by
      simpa [Link.branch_chain, Link.branch] using congrArg (Link.branch 0) hb
    rw [hy] at hb
    exact ⟨hy, (List.cons.inj (List.append_cancel_left hb)).2⟩
  rcases List.append_eq_append_iff.1 hc with ⟨mid, hl, hr⟩ | ⟨mid, hl, hr⟩
  · obtain rfl := first h' hl hr
    exact ⟨by simpa using hl.symm, branches (List.cons.inj hr).2⟩
  · obtain rfl := first h hl hr
    exact ⟨by simpa using hl, branches (List.cons.inj hr).2.symm⟩

/-- What has no operator between operands is one operand, or one behind a sign. -/
theorem sign_or_operand {e : Expr} (h : e.rank = Parser.ranks) :
    (∃ op operand s, e = .unary op operand s) ∨ e.chain = [.operand e] := by
  cases e with
  | unary op operand s => exact .inl ⟨op, operand, s, rfl⟩
  | binary op => exact absurd h (Nat.ne_of_lt op.rank_lt)
  | ternary => cases h
  | _ => exact .inr rfl

/-- **A chain has one ranked tree.** -/
theorem skeleton_eq_of_chain_eq {e e' : Expr} (h : e.Ranked) (h' : e'.Ranked)
    (hc : e.chain = e'.chain) : e.skeleton = e'.skeleton := by
  have hrank := h.rank_eq h' hc
  fun_induction chain e generalizing e' with
  | case1 op operand s ih =>
    rcases sign_or_operand hrank.symm with ⟨op', operand', s', rfl⟩ | ho
    · obtain ⟨hop, hoperand⟩ := List.cons.inj hc
      obtain rfl := Link.unary.inj hop
      rw [skeleton, skeleton, ih h.2 h'.2 hoperand (h.2.rank_eq h'.2 hoperand)]
    · rw [ho] at hc
      cases hc
  | case2 op left right s ihl ihr =>
    cases e' with
    | binary op' left' right' s' =>
      obtain ⟨hleft, rfl, hright⟩ := h.binary_split h' hc
      rw [skeleton, skeleton, ihl h.2.1 h'.2.1 hleft (h.2.1.rank_eq h'.2.1 hleft),
        ihr h.2.2 h'.2.2 hright (h.2.2.rank_eq h'.2.2 hright)]
    | ternary => exact absurd hrank (Nat.ne_of_gt op.rank_pos)
    | _ => exact absurd hrank (Nat.ne_of_lt op.rank_lt)
  | case3 condition yes no s ihc ihy ihn =>
    cases e' with
    | ternary condition' yes' no' s' =>
      obtain ⟨hc, hy, hn⟩ := h.ternary_split h' hc
      rw [skeleton, skeleton, ihc h.2.1 h'.2.1 hc (h.2.1.rank_eq h'.2.1 hc),
        ihy h.2.2.1 h'.2.2.1 hy (h.2.2.1.rank_eq h'.2.2.1 hy),
        ihn h.2.2.2 h'.2.2.2 hn (h.2.2.2.rank_eq h'.2.2.2 hn)]
    | binary op' => exact absurd hrank (Nat.ne_of_lt op'.rank_pos)
    | _ => cases hrank
  | case4 e hunary hbinary hternary =>
    have he : e.rank = Parser.ranks := by
      cases e with
      | binary op left right s => exact absurd rfl (hbinary op left right s)
      | ternary c y n s => exact absurd rfl (hternary c y n s)
      | _ => rfl
    rcases sign_or_operand (hrank.symm.trans he) with ⟨op', operand', s', rfl⟩ | ho
    · cases hc
    · rw [ho] at hc
      obtain rfl := Link.operand.inj (List.cons.inj hc).1
      rfl

end Expr

end Ndf
