/-
# Parts and outlines

An expression among the parts of a document has its node in the outline, and all of its own parts
are parts of the document (`Part.Linked`).  So what is known of all nodes of a document is known of
its expressions (`Document.linked`).
-/

import Ndf.Proofs.Nodes.Document
import Ndf.Proofs.Tree.Parts

namespace Ndf

/-- What an outline and a list of parts have of a part. -/
def Part.Linked (nodes : List Node) (parts : List Part) : Part → Prop
  | .expr e => Outline.expr e ∈ nodes ∧ ∀ p ∈ Parts.expr e, p ∈ parts
  | _ => True

section

variable {nodes others : List Node} {parts rest : List Part} {p : Part}

/-- More nodes and more parts keep the link. -/
theorem Part.Linked.mono (h : p.Linked nodes parts) (hn : ∀ n ∈ nodes, n ∈ others)
    (hp : ∀ p ∈ parts, p ∈ rest) : p.Linked others rest := by
  cases p with
  | expr e => exact ⟨hn _ h.1, fun p hmem => hp p (h.2 p hmem)⟩
  | _ => trivial

namespace Parts

/-- An outline has the nodes of all of these parts, and these have their own parts among them. -/
def Linked (nodes : List Node) (parts : List Part) : Prop := ∀ p ∈ parts, p.Linked nodes parts

/-- Nothing is linked to any nodes. -/
theorem Linked.nil : Linked nodes [] := fun _ h => nomatch h

/-- More nodes keep the links. -/
theorem Linked.mono (h : Linked nodes parts) (hn : ∀ n ∈ nodes, n ∈ others) :
    Linked others parts :=
  fun p hp => (h p hp).mono hn fun _ => id

/-- Two lists of parts with their outlines. -/
theorem Linked.append (h : Linked nodes parts) (h' : Linked others rest) :
    Linked (nodes ++ others) (parts ++ rest) := by
  intro p hp
  rcases List.mem_append.1 hp with hp | hp
  · exact (h p hp).mono (fun _ => List.mem_append_left _) fun _ => List.mem_append_left _
  · exact (h' p hp).mono (fun _ => List.mem_append_right _) fun _ => List.mem_append_right _

/-- One more part in front. -/
theorem Linked.cons (hp : p.Linked nodes (p :: parts)) (h : Linked nodes parts) :
    Linked nodes (p :: parts) := List.forall_mem_cons.2
  ⟨hp, fun q hq => (h q hq).mono (fun _ => id) fun _ => List.mem_cons_of_mem _⟩

/-- An expression in front of what it has below it. -/
theorem Linked.wrap {e : Expr} (he : expr e = .expr e :: parts)
    (h : Linked (Outline.expr e).all parts) :
    Linked (Outline.expr e).all (.expr e :: parts) :=
  .cons ⟨by rw [Node.all_eq]; exact List.mem_cons_self .., fun p hp => he ▸ hp⟩ h

/-- A part of no account in front, with a node of its own. -/
theorem Linked.pass {n : Node} {ns : List Node} (hp : ∀ {nodes parts}, p.Linked nodes parts)
    (h : Linked (Node.allOf ns) parts) : Linked (Node.allOf (n :: ns)) (p :: parts) :=
  .cons hp (h.mono fun _ => List.mem_append_right _)

/-- The outline of one node is that node with all below it. -/
theorem Linked.one {n : Node} (h : Linked n.all parts) : Linked (Node.allOf [n]) parts :=
  h.mono fun _ => List.mem_append_left _

/-- A node has the nodes of its parts below it. -/
theorem Linked.node {b : Bool} {s : Span} {ns : List Node} (h : Linked (Node.allOf ns) parts) :
    Linked (Node.all ⟨b, s, ns⟩) parts :=
  h.mono fun _ => List.mem_cons_of_mem _

end Parts

/-- The nodes below two rows. -/
theorem Node.allOf_append (ns ms : List Node) : allOf (ns ++ ms) = allOf ns ++ allOf ms := by
  simp [allOf_eq_flatMap]

namespace Parts

mutual

/-- Types have no expressions in them. -/
theorem type_linked : ∀ t, ∀ p ∈ type t, ∀ nodes parts, p.Linked nodes parts
  | ⟨_, _, params, _⟩ => List.forall_mem_cons.2
    ⟨fun _ _ => trivial, List.forall_mem_cons.2 ⟨fun _ _ => trivial, types_linked params⟩⟩

theorem types_linked : ∀ ts, ∀ p ∈ types ts, ∀ nodes parts, p.Linked nodes parts
  | [] => fun _ h => nomatch h
  | t :: rest => List.forall_mem_append.2 ⟨type_linked t, types_linked rest⟩

end

mutual

theorem expr_linked : ∀ e, Linked (Outline.expr e).all (expr e)
  | .nil _ | .bool .. | .number .. | .string .. | .guid .. => .wrap rfl .nil
  | .object o => .wrap rfl (object_linked o)
  | .vector _ _ items _ _ => .wrap rfl (.node (.pass trivial (exprs_linked items)))
  | .list items _ _ => .wrap rfl (.node (exprs_linked items))
  | .map _ pairs _ => .wrap rfl (.node (.pass trivial (exprs_linked pairs)))
  | .pair l r _ => .wrap rfl (.node ((expr_linked l).append (.one (expr_linked r))))
  | .unary _ e _ => .wrap rfl (.node (.one (expr_linked e)))
  | .binary _ l r _ => .wrap rfl (.node ((expr_linked l).append (.one (expr_linked r))))
  | .ternary c y n _ =>
    .wrap rfl (.node ((expr_linked c).append ((expr_linked y).append (.one (expr_linked n)))))
  | .group inner _ => .wrap rfl (.node (expr?_linked inner))
  | .generic _ index _ => .wrap rfl (.node (.pass trivial (expr?_linked index)))
  | .reference r => .wrap rfl (reference_linked r)
  | .assignment a => .wrap rfl (assignment_linked a)
  | .visibility v => .wrap rfl (visibility_linked v)
  | .error _ => .wrap rfl (.cons trivial .nil)

theorem exprs_linked : ∀ es, Linked (Node.allOf (Outline.exprs es)) (exprs es)
  | [] => .nil
  | e :: rest => (expr_linked e).append (exprs_linked rest)

theorem expr?_linked : ∀ e, Linked (Node.allOf (Outline.expr? e)) (expr? e)
  | none => .nil
  | some e => .one (expr_linked e)

theorem reference_linked : ∀ r, Linked (Outline.reference r).all (reference r)
  | ⟨_, segs, _⟩ => .cons trivial (.node (segments_linked segs))

theorem segments_linked : ∀ segs, Linked (Node.allOf (Outline.segments segs)) (segments segs)
  | [] => .nil
  | .name .. :: rest => .pass trivial (segments_linked rest)
  | .index e :: rest => (expr_linked e).append (segments_linked rest)

theorem assignment_linked : ∀ a, Linked (Outline.assignment a).all (assignment a)
  | ⟨_, value, _⟩ => .cons trivial (.node (.pass trivial (.one (expr_linked value))))

theorem declaration_linked : ∀ d, Linked (Outline.declaration d).all (declaration d)
  | .assignment a => assignment_linked a
  | .template t => template_linked t

theorem visibility_linked : ∀ v, Linked (Outline.visibility v).all (visibility v)
  | ⟨_, _, decl, _⟩ => .cons trivial (.node (.pass trivial (.one (declaration_linked decl))))

theorem template_linked : ∀ t, Linked (Outline.template t).all (template t)
  | ⟨_, params, body, _⟩ => .cons trivial <| .node <| .pass trivial <| by
      rw [Node.allOf_append]
      exact (members_linked params).append (.one (object_linked body))

theorem member_linked : ∀ m, Linked (Outline.member m).all (member m)
  | ⟨_, type?, value, _, _⟩ => .cons trivial <| .node <| .pass trivial <| by
      have htypes : Linked (Node.allOf (type?.toList.map Outline.type)) (types type?.toList) :=
        fun p hp => types_linked _ p hp _ _
      rw [Node.allOf_append]
      exact htypes.append (expr?_linked value)

theorem members_linked : ∀ ms, Linked (Node.allOf (Outline.members ms)) (members ms)
  | [] => .nil
  | m :: rest => (member_linked m).append (members_linked rest)

theorem entry_linked : ∀ e, Linked (Outline.entry e).all (entry e)
  | .member m => .cons trivial (member_linked m)
  | .assignment a => .cons trivial (assignment_linked a)
  | .visibility v => .cons trivial (visibility_linked v)
  | .reference r => .cons trivial (reference_linked r)
  | .error _ => .cons trivial (.cons trivial .nil)

theorem entries_linked : ∀ es, Linked (Node.allOf (Outline.entries es)) (entries es)
  | [] => .nil
  | e :: rest => (entry_linked e).append (entries_linked rest)

theorem object_linked : ∀ o, Linked (Outline.object o).all (object o)
  | ⟨_, es, _⟩ => .cons trivial <| .node <| .pass trivial (entries_linked es)

end

theorem inItem_linked : ∀ i, Linked (Outline.item i).all (inItem i)
  | .assignment a => assignment_linked a
  | .visibility v => visibility_linked v
  | .template t => template_linked t
  | .unnamed u => .cons trivial (.node (.one (object_linked u.object)))
  | .member m => member_linked m
  | .expr e => expr_linked e
  | .error _ => .cons trivial .nil

end Parts

end

/-- An expression of a document has its node there and all of its own parts. -/
theorem Document.linked (d : Document) : Parts.Linked d.nodes d.parts := by
  intro p hp
  obtain ⟨i, hi, hp⟩ := List.mem_flatMap.1 hp
  have item : Parts.Linked (Outline.item i).all (Parts.item i) :=
    .cons trivial (Parts.inItem_linked i)
  refine (item p hp).mono (fun n hn => ?_) fun q hq => List.mem_flatMap.2 ⟨i, hi, hq⟩
  rw [nodes, Node.allOf_eq_flatMap]
  exact List.mem_flatMap.2 ⟨_, List.mem_map_of_mem hi, hn⟩

end Ndf
