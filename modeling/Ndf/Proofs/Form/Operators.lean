/-
# Operators of a document

`SPEC_FULL.md` §4.3, the table of precedence, and §8, "Ternary right-associativity".

In a source without problems the operators of every expression bind as the table of precedence says
(`BinaryOp.table`): to the left among those of one line, but `?:` to the right (`Expr.Binds`).  The
operands of a chain are in the order in which they are written, and no other tree of the same
operands and signs keeps to the table (`parse_ranks`).
-/

import Ndf.Proofs.Form.Document
import Ndf.Proofs.Tree.Linked
import Ndf.Tree.Dump

namespace Ndf

/-- The operand that a link is. -/
def Link.operand? : Link → Option Expr
  | .operand e => some e
  | _ => none

/-- The operands of a chain as they are written. -/
def Expr.operands (e : Expr) : List Expr := e.chain.filterMap Link.operand?

/-- The operands of both sides, from left to right. -/
theorem Expr.operands_binary (op : BinaryOp) (left right : Expr) (s : Span) :
    (binary op left right s).operands = left.operands ++ right.operands := by
  simp [operands, chain, Link.operand?, List.filterMap_cons]

/-- The operands of the three expressions, from left to right. -/
theorem Expr.operands_ternary (condition yes no : Expr) (s : Span) :
    (ternary condition yes no s).operands =
      condition.operands ++ (yes.operands ++ no.operands) := by
  simp [operands, chain, Link.operand?, List.filterMap_cons]

/-- Every operator binds as the table says, the operands of its chain are one behind the other, and
the table allows no other tree for them and the signs between them. -/
def Document.Ranked (d : Document) : Prop :=
  ∀ e, .expr e ∈ d.parts → e.Binds ∧ (e.operands.Pairwise fun a b => a.span.stop ≤ b.span.start) ∧
    ∀ e' : Expr, e'.Ranked → e'.symbols = e.symbols → e'.skeleton = e.skeleton

variable {source : String}

/-- An expression of a document has its node and its own parts there. -/
theorem linked_of_mem {e : Expr} (he : .expr e ∈ (parse source).document.parts) :
    (Outline.expr e).Proper (Scene.ofText source) ∧
      ∀ p ∈ Parts.expr e, p ∈ (parse source).document.parts :=
  have h : Outline.expr e ∈ (parse source).document.nodes ∧ _ :=
    (parse source).document.linked _ he
  ⟨proper_of_mem_nodes h.1, h.2⟩

/-! ### Nothing is cut out of a source without problems -/

/-- An operator of a source without problems binds as the table says. -/
theorem binds_of_mem (clean : (parse source).diagnostics = []) {e : Expr}
    (he : .expr e ∈ (parse source).document.parts) : e.Binds :=
  (parse_lawful source _ he).ranked fun n hn =>
    not_mem_error clean n ((linked_of_mem he).2 _ hn)

/-- The operands of an operator are expressions of the document as well. -/
theorem ranked_of_mem (clean : (parse source).diagnostics = []) {e : Expr}
    (he : .expr e ∈ (parse source).document.parts) : e.Ranked := by
  have below {e d : Expr} (he : .expr e ∈ (parse source).document.parts)
      (hd : .expr d ∈ Parts.expr e) : .expr d ∈ (parse source).document.parts :=
    (linked_of_mem he).2 _ hd
  fun_induction Expr.Ranked e with
  | case1 op operand s ih =>
    have hoperand : .expr operand ∈ Parts.expr (.unary op operand s) := by
      simp [Parts.expr, Parts.mem_expr]
    exact ⟨binds_of_mem clean he, ih (below he hoperand)⟩
  | case2 op left right s ihl ihr =>
    have hleft : .expr left ∈ Parts.expr (.binary op left right s) := by
      simp [Parts.expr, Parts.mem_expr]
    have hright : .expr right ∈ Parts.expr (.binary op left right s) := by
      simp [Parts.expr, Parts.mem_expr]
    exact ⟨binds_of_mem clean he, ihl (below he hleft), ihr (below he hright)⟩
  | case3 condition yes no s ihc ihy ihn =>
    have hcondition : .expr condition ∈ Parts.expr (.ternary condition yes no s) := by
      simp [Parts.expr, Parts.mem_expr]
    have hyes : .expr yes ∈ Parts.expr (.ternary condition yes no s) := by
      simp [Parts.expr, Parts.mem_expr]
    have hno : .expr no ∈ Parts.expr (.ternary condition yes no s) := by
      simp [Parts.expr, Parts.mem_expr]
    exact ⟨binds_of_mem clean he, ihc (below he hcondition), ihy (below he hyes),
      ihn (below he hno)⟩
  | case4 => trivial

/-! ### Operands in order -/

/-- An expression covers something. -/
theorem start_lt_stop {S : Scene} {e : Expr} (h : (Outline.expr e).Proper S) :
    e.span.start < e.span.stop := by
  rw [← Outline.span_expr]
  cases h
  assumption

/-- Where an expression stands well, the operands of its chain are one behind the other in it. -/
theorem row_operands {S : Scene} {e : Expr} (h : (Outline.expr e).Proper S) :
    S.Row e.span.start e.span.stop (e.operands.map Outline.expr) := by
  induction e using Expr.chain.induct with
  | case1 op operand s ih =>
    obtain ⟨-, -, -, -, -, within, parts⟩ := h
    simp only [Outline.expr, List.forall_mem_singleton, Outline.span_expr] at within parts
    exact (ih parts).mono within.1 within.2
  | case2 op left right s ihl ihr =>
    obtain ⟨-, -, -, -, ordered, within, parts⟩ := h
    simp only [Outline.expr, List.forall_mem_cons, List.pairwise_cons, Outline.span_expr]
      at ordered within parts
    have := start_lt_stop parts.1
    have := start_lt_stop parts.2.1
    rw [Expr.operands_binary, List.map_append]
    exact ((ihl parts.1).append (ihr parts.2.1) ordered.1.1 (by omega)
      (by omega)).mono within.1.1 within.2.1.2
  | case3 condition yes no s ihc ihy ihn =>
    obtain ⟨-, -, -, -, ordered, within, parts⟩ := h
    simp only [Outline.expr, List.forall_mem_cons, List.pairwise_cons, Outline.span_expr]
      at ordered within parts
    have := start_lt_stop parts.1
    have := start_lt_stop parts.2.1
    have := start_lt_stop parts.2.2.1
    have branches := (ihy parts.2.1).append (ihn parts.2.2.1) ordered.2.1.1
      (by omega) (by omega)
    rw [Expr.operands_ternary, List.map_append, List.map_append]
    exact ((ihc parts.1).append branches ordered.1.1 (by omega) (by omega)).mono
      within.1.1 within.2.2.1.2
  | case4 e hunary hbinary hternary =>
    have he : e.operands = [e] := by
      cases e with
      | unary op operand s => exact absurd rfl (hunary op operand s)
      | binary op left right s => exact absurd rfl (hbinary op left right s)
      | ternary c y n s => exact absurd rfl (hternary c y n s)
      | _ => rfl
    rw [he]
    exact ⟨List.pairwise_singleton .., by simp [Outline.span_expr], by simpa using h⟩

/-- **Operators bind as the table says.**  In a source without problems, an operator holds on its
left no looser one and on its right only tighter ones, a sign holds one operand, and a condition is
no `?:`; the operands of a chain are in the order of the source, and no other tree of the same
operands and signs does as much. -/
theorem parse_ranks (clean : (parse source).diagnostics = []) :
    (parse source).document.Ranked := by
  intro e he
  refine ⟨binds_of_mem clean he, ?ordered, ?unique⟩
  case ordered =>
    have ordered := (row_operands (linked_of_mem he).1).ordered
    rw [List.pairwise_map] at ordered
    exact ordered.imp fun h => by rwa [Outline.span_expr, Outline.span_expr] at h
  case unique =>
    intro e' hr hs
    have hchain : e'.chain = e.chain := Expr.chain_eq_of_symbols_eq hs
    exact Expr.skeleton_eq_of_chain_eq hr (ranked_of_mem clean he) hchain

/-- Operators of every line of the table, a sign and nested conditions: the product is the right
side of the sum, the sum that of the comparison, and so on to the condition, which is all of the
`|`. -/
theorem parse_ranks_sum :
    (parse "A is 1 + 2 * 3 < -x - 5 | B & C ? D : E ? F : G").diagnostics = [] ∧
      (parse "A is 1 + 2 * 3 < -x - 5 | B & C ? D : E ? F : G").document.Ranked ∧
      (parse "A is 1 + 2 * 3 < -x - 5 | B & C ? D : E ? F : G").document.dump =
        "(source_file (assignment (name A) (ternary (binary_expression" ++
          " (binary_expression" ++
            " (binary_expression (number_dec 1) +" ++
              " (binary_expression (number_dec 2) * (number_dec 3))) <" ++
            " (binary_expression (unary_expression - (reference (terminal x))) -" ++
              " (number_dec 5))) |" ++
          " (binary_expression (reference (terminal B)) & (reference (terminal C))))" ++
          " (reference (terminal D))" ++
          " (ternary (reference (terminal E)) (reference (terminal F))" ++
            " (reference (terminal G))))))" := by
  have clean : (parse "A is 1 + 2 * 3 < -x - 5 | B & C ? D : E ? F : G").diagnostics = [] := by cbv
  exact ⟨clean, parse_ranks clean, by decide +kernel⟩

end Ndf
