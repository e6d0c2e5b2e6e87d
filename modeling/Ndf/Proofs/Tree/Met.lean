/-
# What a walk meets

A walk over a document meets all of its parts, each once and in their order, but for those that are
met with what they belong to: names, types, and entries and unnamed items, which only wrap something
(`Document.parts_met`).  Whatever is collected on a walk is so picked out of the parts: the
references, the declared names and the fragments of a document are those among all of its parts.
-/

import Ndf.Proofs.Tree.Parts
import Ndf.Tree.Walk

namespace Ndf

/-- The part that is met, unless it is left. -/
def Visit.part? : Visit → Option Part
  | .enterItem i => some (.item i)
  | .enterExpr e => some (.expr e)
  | .assignment a => some (.assignment a)
  | .visibility v => some (.visibility v)
  | .template t => some (.template t)
  | .enterObject o => some (.object o)
  | .member m => some (.member m)
  | .reference r => some (.reference r)
  | .error e => some (.error e)
  | .leaveItem _ | .leaveExpr _ | .leaveObject _ => none

namespace Part

/-- Whether a walk meets the part by itself. -/
def isMet : Part → Bool
  | .name _ | .type _ | .entry _ | .unnamed _ => false
  | _ => true

/-- The part as a reference. -/
def reference? : Part → Option Reference
  | .reference r => some r
  | _ => none

/-- The name that the part declares. -/
def declared? : Part → Option Name
  | .assignment a => some a.name
  | .template t => some t.name
  | _ => none

/-- The part as an expression. -/
def expr? : Part → Option Expr
  | .expr e => some e
  | _ => none

/-- A part is an expression or none. -/
theorem expr?_eq_some {p : Part} {e : Expr} : p.expr? = some e ↔ p = .expr e := by
  cases p <;> simp [expr?]

/-- The part as an unreadable fragment. -/
def error? : Part → Option ErrorNode
  | .error e => some e
  | _ => none

end Part

/-- What is met are the parts that are met by themselves. -/
def Meets (visits : List Visit) (parts : List Part) : Prop :=
  visits.filterMap Visit.part? = parts.filter Part.isMet

namespace Meets

variable {visits more : List Visit} {parts rest : List Part} {v : Visit} {p : Part}

/-- No visit meets no part. -/
theorem nil : Meets [] [] := rfl

/-- Visits behind visits meet parts behind parts. -/
theorem append (h : Meets visits parts) (h' : Meets more rest) :
    Meets (visits ++ more) (parts ++ rest) := by
  rw [Meets, List.filterMap_append, List.filter_append, h, h']

/-- A part is met before those below it. -/
theorem meet (hv : v.part? = some p) (hp : p.isMet = true) (h : Meets visits parts) :
    Meets (v :: visits) (p :: parts) := by
  rw [Meets, List.filterMap_cons_some hv, List.filter_cons_of_pos hp, h]

/-- A part that is not met by itself. -/
theorem pass (hp : p.isMet = false) (h : Meets visits parts) : Meets visits (p :: parts) := by
  rw [Meets, List.filter_cons_of_neg (by simp [hp]), h]

/-- What is entered is left behind all below it. -/
theorem leave (hv : v.part? = none) (h : Meets visits parts) : Meets (visits ++ [v]) parts := by
  rw [Meets, List.filterMap_append, List.filterMap_cons_none hv, h]
  exact List.append_nil _

/-- An expression is met around what it contains. -/
theorem around {e : Expr} (h : Meets visits parts) :
    Meets (Walk.expr.around e visits) (.expr e :: parts) := .meet rfl rfl (.leave rfl h)

/-- A fragment is met as it is. -/
theorem error (e : ErrorNode) : Meets [.error e] [.error e] := .meet rfl rfl .nil

end Meets

namespace Parts

mutual

/-- Types are met with the members that have them. -/
theorem type_met : ∀ t, Meets [] (type t)
  | ⟨_, _, params, _⟩ => .pass rfl (.pass rfl (types_met params))

theorem types_met : ∀ ts, Meets [] (types ts)
  | [] => .nil
  | t :: rest => (type_met t).append (types_met rest)

end

mutual

theorem expr_met : ∀ e, Meets (Walk.expr e) (expr e)
  | .nil _ | .bool .. | .number .. | .string .. | .guid .. => .around .nil
  | .object o => .around (object_met o)
  | .vector _ _ items _ _ => .around (.pass rfl (exprs_met items))
  | .list items _ _ => .around (exprs_met items)
  | .map _ pairs _ => .around (.pass rfl (exprs_met pairs))
  | .pair l r _ => .around ((expr_met l).append (expr_met r))
  | .unary _ e _ => .around (expr_met e)
  | .binary _ l r _ => .around ((expr_met l).append (expr_met r))
  | .ternary c y n _ => .around ((expr_met c).append ((expr_met y).append (expr_met n)))
  | .group inner _ => .around (expr?_met inner)
  | .generic _ index _ => .around (.pass rfl (expr?_met index))
  | .reference r => .around (reference_met r)
  | .assignment a => .around (assignment_met a)
  | .visibility v => .around (visibility_met v)
  | .error e => .around (.error e)

theorem exprs_met : ∀ es, Meets (Walk.exprs es) (exprs es)
  | [] => .nil
  | e :: rest => (expr_met e).append (exprs_met rest)

theorem expr?_met : ∀ e, Meets (Walk.expr? e) (expr? e)
  | none => .nil
  | some e => expr_met e

theorem reference_met : ∀ r, Meets (Walk.reference r) (reference r)
  | ⟨_, segs, _⟩ => .meet rfl rfl (segments_met segs)

theorem segments_met : ∀ segs, Meets (Walk.segments segs) (segments segs)
  | [] => .nil
  | .name .. :: rest => .pass rfl (segments_met rest)
  | .index e :: rest => (expr_met e).append (segments_met rest)

theorem assignment_met : ∀ a, Meets (Walk.assignment a) (assignment a)
  | ⟨_, value, _⟩ => .meet rfl rfl (.pass rfl (expr_met value))

theorem declaration_met : ∀ d, Meets (Walk.declaration d) (declaration d)
  | .assignment a => assignment_met a
  | .template t => template_met t

theorem visibility_met : ∀ v, Meets (Walk.visibility v) (visibility v)
  | ⟨_, _, decl, _⟩ => .meet rfl rfl (.pass rfl (declaration_met decl))

theorem template_met : ∀ t, Meets (Walk.template t) (template t)
  | ⟨_, params, body, _⟩ =>
    .meet rfl rfl (.pass rfl ((members_met params).append (object_met body)))

theorem member_met : ∀ m, Meets (Walk.member m) (member m)
  | ⟨_, type?, value, _, _⟩ =>
    .meet rfl rfl (.pass rfl ((types_met type?.toList).append (expr?_met value)))

theorem members_met : ∀ ms, Meets (Walk.members ms) (members ms)
  | [] => .nil
  | m :: rest => (member_met m).append (members_met rest)

theorem entry_met : ∀ e, Meets (Walk.entry e) (entry e)
  | .member m => .pass rfl (member_met m)
  | .assignment a => .pass rfl (assignment_met a)
  | .visibility v => .pass rfl (visibility_met v)
  | .reference r => .pass rfl (reference_met r)
  | .error e => .pass rfl (.error e)

theorem entries_met : ∀ es, Meets (Walk.entries es) (entries es)
  | [] => .nil
  | e :: rest => (entry_met e).append (entries_met rest)

theorem object_met : ∀ o, Meets (Walk.object o) (object o)
  | ⟨_, es, _⟩ => .meet rfl rfl (.pass rfl (.leave rfl (entries_met es)))

end

/-- What is visited in an item is what its parts say. -/
theorem item_met (i : Item) : Meets (Walk.item i) (item i) := by
  refine .meet rfl rfl (.leave rfl ?_)
  cases i with
  | assignment a => exact assignment_met a
  | visibility v => exact visibility_met v
  | template t => exact template_met t
  | unnamed u => exact .pass rfl (object_met u.object)
  | member m => exact member_met m
  | expr e => exact expr_met e
  | error e => exact .error e

end Parts

namespace Document

variable {α : Type} (d : Document)

/-- **A walk meets the parts of a document**, each once and in their order. -/
theorem parts_met : d.visits.filterMap Visit.part? = d.parts.filter Part.isMet := by
  rw [visits, parts]
  induction d.items with
  | nil => rfl
  | cons i items ih => exact (Parts.item_met i).append ih

/-- What is collected from what is met is collected from the parts. -/
theorem filterMap_visits {f : Visit → Option α} {g : Part → Option α}
    (hf : ∀ v, f v = v.part?.bind g) (hg : ∀ p, p.isMet = false → g p = none) :
    d.visits.filterMap f = d.parts.filterMap g := by
  have hmet : (fun p => if p.isMet = true then g p else none) = g := by
    funext p
    split
    · rfl
    · rename_i hp
      exact (hg p (by simpa using hp)).symm
  rw [funext hf, ← List.filterMap_filterMap, parts_met, List.filterMap_filter, hmet]

/-- What a walk meets as a part that is met by itself is among the parts. -/
theorem mem_visits_iff {v : Visit} {p : Part} (hv : ∀ w, Visit.part? w = some p ↔ w = v)
    (hp : p.isMet = true) : v ∈ d.visits ↔ p ∈ d.parts := by
  have hmet : p ∈ d.visits.filterMap Visit.part? ↔ p ∈ d.parts := by
    rw [parts_met, List.mem_filter]
    exact and_iff_left hp
  rw [← hmet, List.mem_filterMap]
  simp [hv]

/-- What is entered as an expression is a part that is one. -/
theorem mem_enterExpr {e : Expr} : .enterExpr e ∈ d.visits ↔ .expr e ∈ d.parts :=
  d.mem_visits_iff (fun w => by cases w <;> simp [Visit.part?]) rfl

/-- What is met as a fragment is a part that is one. -/
theorem mem_error {e : ErrorNode} : .error e ∈ d.visits ↔ .error e ∈ d.parts :=
  d.mem_visits_iff (fun w => by cases w <;> simp [Visit.part?]) rfl

/-- What is met as a reference is a part that is one. -/
theorem mem_reference {r : Reference} : .reference r ∈ d.visits ↔ .reference r ∈ d.parts :=
  d.mem_visits_iff (fun w => by cases w <;> simp [Visit.part?]) rfl

/-- **The references of a document are those among its parts.** -/
theorem references_eq : d.references = d.parts.filterMap Part.reference? :=
  d.filterMap_visits (fun v => by cases v <;> rfl) fun p hp => by cases p <;> first | rfl | cases hp

/-- **The declared names of a document are those of its assignments and templates.** -/
theorem declarations_eq : d.declarations = d.parts.filterMap Part.declared? :=
  d.filterMap_visits (fun v => by cases v <;> rfl) fun p hp => by cases p <;> first | rfl | cases hp

/-- **The fragments of a document are counted as often as they are among its parts.** -/
theorem errorCount_eq : d.errorCount = (d.parts.filterMap Part.error?).length := by
  have herrors : d.visits.filterMap (fun v => v.part?.bind Part.error?) =
      d.parts.filterMap Part.error? :=
    d.filterMap_visits (fun _ => rfl) fun p hp => by cases p <;> first | rfl | cases hp
  have hisError : Visit.isError = fun v => (v.part?.bind Part.error?).isSome := by
    funext v
    cases v <;> rfl
  rw [← herrors, List.length_filterMap_eq_countP, errorCount, hisError]

end Document
end Ndf
