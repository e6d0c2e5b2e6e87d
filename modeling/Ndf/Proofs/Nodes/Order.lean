/-
# References and declarations in the order of the source

`SPEC_FULL.md` E6, the collectors; §3, the order of items.

The start of a reference and the name of a declaration are landmarks.  Each stands at a name or in
front of one, and what follows stands behind that name, so the landmarks of a document come in the
order of its text, no two of them at one place, even where one reference stands in the index of
another (`parse_climbs`).

With what a walk meets this makes the collections of a document complete and sorted
(`parse_collects`).
-/

import Ndf.Proofs.Form.Document
import Ndf.Proofs.Nodes.Document
import Ndf.Proofs.Tree.Met

namespace Ndf

variable {S : Scene} {n : Node} {ns ms : List Node} {p : Part} {parts rest : List Part}
  {lo mid mid' hi lo' hi' : Nat}

/-! ### Rows -/

namespace Scene

/-- The first node of a row, and the row behind it. -/
theorem Row.behind (h : S.Row lo hi (n :: ns)) : lo ≤ n.span.start ∧ n.span.start < n.span.stop ∧
    n.span.stop ≤ hi ∧ n.Proper S ∧ S.Row n.span.stop hi ns := by
  obtain ⟨hfirst, hordered⟩ := List.pairwise_cons.1 h.ordered
  obtain ⟨hn, hwithin⟩ := List.forall_mem_cons.1 h.within
  obtain ⟨hproper, hproper'⟩ := List.forall_mem_cons.1 h.proper
  have hlt : n.span.start < n.span.stop := by
    obtain ⟨-, lt, -⟩ := hproper
    exact lt
  exact ⟨hn.1, hlt, hn.2, hproper, hordered, fun m hm => ⟨hfirst m hm, (hwithin m hm).2⟩, hproper'⟩

/-- Between two parts of a row there is a place. -/
theorem Row.cut (h : S.Row lo hi (ns ++ ms)) (hle : lo ≤ hi) :
    ∃ mid, lo ≤ mid ∧ mid ≤ hi ∧ S.Row lo mid ns ∧ S.Row mid hi ms := by
  induction ns generalizing lo with
  | nil => exact ⟨lo, Nat.le_refl _, hle, .nil, h⟩
  | cons n ns ih =>
    obtain ⟨hl, hlt, hn, hproper, hrow⟩ := h.behind
    obtain ⟨mid, hmid, hhi, hns, hms⟩ := ih hrow hn
    have hone : S.Row lo n.span.stop [n] :=
      ⟨List.pairwise_singleton _ _, by simp [hl], by simpa using hproper⟩
    exact ⟨mid, by omega, hhi, hone.append hns (Nat.le_refl _) (by omega) hmid, hms⟩

end Scene

/-- The parts of a node are a row in it. -/
theorem Node.Proper.row (h : n.Proper S) : S.Row n.span.start n.span.stop n.parts := by
  obtain ⟨-, -, -, -, ordered, within, parts⟩ := h
  exact ⟨ordered, within, parts⟩

/-! ### Landmarks -/

/-- Where a reference starts, or the name of a declaration. -/
def Part.landmark? : Part → Option Nat
  | .reference r => some r.span.start
  | .assignment a => some a.name.span.start
  | .template t => some t.name.span.start
  | _ => none

/-- The landmarks of some parts lie between two offsets, each behind the one before. -/
structure Climbs (lo hi : Nat) (parts : List Part) : Prop where
  rising : (parts.filterMap Part.landmark?).Pairwise (· < ·)
  within : ∀ k ∈ parts.filterMap Part.landmark?, lo ≤ k ∧ k < hi

namespace Climbs

/-- No parts climb. -/
theorem nil : Climbs lo hi [] := ⟨.nil, by simp⟩

/-- Parts climb between wider bounds as well. -/
theorem mono (h : Climbs lo hi parts) (hl : lo' ≤ lo) (hh : hi ≤ hi') : Climbs lo' hi' parts where
  rising := h.rising
  within k hk := by
    have := h.within k hk
    omega

/-- A part that is no landmark. -/
theorem pass (hp : p.landmark? = none) (h : Climbs lo hi parts) : Climbs lo hi (p :: parts) where
  rising := by
    rw [List.filterMap_cons_none hp]
    exact h.rising
  within := by
    rw [List.filterMap_cons_none hp]
    exact h.within

/-- A landmark in front of the others. -/
theorem mark {k : Nat} (hp : p.landmark? = some k) (hl : lo ≤ k) (hk : k < mid) (hh : mid ≤ hi)
    (h : Climbs mid hi parts) : Climbs lo hi (p :: parts) where
  rising := by
    rw [List.filterMap_cons_some hp]
    exact List.pairwise_cons.2 ⟨fun j hj => Nat.lt_of_lt_of_le hk (h.within j hj).1, h.rising⟩
  within := by
    rw [List.filterMap_cons_some hp]
    exact List.forall_mem_cons.2
      ⟨⟨hl, Nat.lt_of_lt_of_le hk hh⟩, (h.mono (by omega) (Nat.le_refl _)).within⟩

/-- Parts behind parts climb if the first end where the second start. -/
theorem append (h : Climbs lo mid parts) (h' : Climbs mid hi rest) (hl : lo ≤ mid)
    (hh : mid ≤ hi) : Climbs lo hi (parts ++ rest) where
  rising := by
    rw [List.filterMap_append]
    refine List.pairwise_append.2 ⟨h.rising, h'.rising, fun j hj k hk => ?_⟩
    exact Nat.lt_of_lt_of_le (h.within j hj).2 (h'.within k hk).1
  within := by
    rw [List.filterMap_append]
    exact List.forall_mem_append.2 ⟨(h.mono (Nat.le_refl _) hh).within,
      (h'.mono hl (Nat.le_refl _)).within⟩

end Climbs

/-- Where nodes stand in a row, the landmarks of their parts climb along it. -/
def Rises (S : Scene) (ns : List Node) (parts : List Part) : Prop :=
  (∀ p ∈ parts, p.WellFormed) → ∀ {lo hi}, lo ≤ hi → S.Row lo hi ns → Climbs lo hi parts

namespace Rises

/-- No nodes and no parts rise. -/
theorem nil : Rises S [] [] := fun _ _ _ _ _ => .nil

/-- One node without parts rises. -/
theorem leaf : Rises S [n] [] := fun _ _ _ _ _ => .nil

/-- Two rows rise one behind the other. -/
theorem append (h : Rises S ns parts) (h' : Rises S ms rest) :
    Rises S (ns ++ ms) (parts ++ rest) := by
  intro hw lo hi hle hrow
  obtain ⟨hparts, hrest⟩ := List.forall_mem_append.1 hw
  obtain ⟨mid, hl, hh, hns, hms⟩ := hrow.cut hle
  exact (h hparts hl hns).append (h' hrest hh hms) hl hh

/-- A part without a node of its own. -/
theorem pass (hp : p.landmark? = none) (h : Rises S ns parts) : Rises S ns (p :: parts) :=
  fun hw _ _ hle hrow => (h (List.forall_mem_cons.1 hw).2 hle hrow).pass hp

/-- What stands in a node. -/
theorem node {isType : Bool} {s : Span} (h : Rises S ns parts) :
    Rises S [⟨isType, s, ns⟩] parts := by
  intro hw lo hi hle hrow
  obtain ⟨hl, hlt, hh, hproper, -⟩ := hrow.behind
  exact (h hw (Nat.le_of_lt hlt) hproper.row).mono hl hh

/-- A name in front. -/
theorem name (name : Name) (h : Rises S ns parts) :
    Rises S (Outline.name name :: ns) (.name name :: parts) := by
  intro hw lo hi hle hrow
  obtain ⟨hl, hlt, hh, -, hrow⟩ := hrow.behind
  exact ((h (List.forall_mem_cons.1 hw).2 hh hrow).mono (by omega) (Nat.le_refl _)).pass rfl

/-- A landmark where its node starts, or at the name that the node starts with. -/
theorem landmark {isType : Bool} {s : Span} {name : Name} {k : Nat} (hp : p.landmark? = some k)
    (hk : k = s.start ∨ k = name.span.start) (h : Rises S ns parts) :
    Rises S [⟨isType, s, Outline.name name :: ns⟩] (p :: .name name :: parts) := by
  intro hw lo hi hle hrow
  obtain ⟨hlo, -, hhi, hproper, -⟩ := hrow.behind
  obtain ⟨hl, hlt, hh, -, hrow⟩ := hproper.row.behind
  have hl : s.start ≤ name.span.start := hl
  have hlt : name.span.start < name.span.stop := hlt
  obtain ⟨-, hparts⟩ := List.forall_mem_cons.1 (List.forall_mem_cons.1 hw).2
  have hclimbs : Climbs s.start s.stop (p :: .name name :: parts) :=
    ((h hparts hh hrow).pass rfl).mark hp (by omega) (show k < name.span.stop by omega) hh
  exact hclimbs.mono hlo hhi

end Rises

namespace Parts

mutual

/-- Types have no landmarks. -/
theorem type_rises : ∀ t, Rises S [Outline.type t] (type t)
  | ⟨n, _, params, _⟩ => .pass rfl (.node (.name n (types_rises params)))

/-- The parameters of a type rise with their nodes. -/
theorem types_rises : ∀ ts, Rises S (Outline.types ts) (types ts)
  | [] => .nil
  | t :: rest => (type_rises t).append (types_rises rest)

end

mutual

/-- The parts of an expression rise with its node. -/
theorem expr_rises : ∀ e, Rises S [Outline.expr e] (expr e)
  | .nil _ | .bool .. | .number .. | .string .. | .guid .. => .pass rfl .leaf
  | .object o => .pass rfl (object_rises o)
  | .vector n _ items _ _ => .pass rfl (.node (.name n (exprs_rises items)))
  | .list items _ _ => .pass rfl (.node (exprs_rises items))
  | .map n pairs _ => .pass rfl (.node (.name n (exprs_rises pairs)))
  | .pair l r _ => .pass rfl (.node ((expr_rises l).append (expr_rises r)))
  | .unary _ e _ => .pass rfl (.node (expr_rises e))
  | .binary _ l r _ => .pass rfl (.node ((expr_rises l).append (expr_rises r)))
  | .ternary c y n _ =>
    .pass rfl (.node ((expr_rises c).append ((expr_rises y).append (expr_rises n))))
  | .group inner _ => .pass rfl (.node (expr?_rises inner))
  | .generic n index _ => .pass rfl (.node (.name n (expr?_rises index)))
  | .reference r => .pass rfl (reference_rises r)
  | .assignment a => .pass rfl (assignment_rises a)
  | .visibility v => .pass rfl (visibility_rises v)
  | .error _ => .pass rfl (.pass rfl .leaf)

/-- Those of several expressions do. -/
theorem exprs_rises : ∀ es, Rises S (Outline.exprs es) (exprs es)
  | [] => .nil
  | e :: rest => (expr_rises e).append (exprs_rises rest)

/-- Those of one that may be missing do. -/
theorem expr?_rises : ∀ e, Rises S (Outline.expr? e) (expr? e)
  | none => .nil
  | some e => expr_rises e

/-- Those of a reference do. -/
theorem reference_rises : ∀ r, Rises S [Outline.reference r] (reference r)
  | ⟨_, .name _ _ :: rest, _⟩ => .landmark rfl (.inl rfl) (segments_rises rest)
  | ⟨_, [], _⟩ => fun hw => absurd (hw _ (List.mem_cons_self ..)) (by simp [Part.WellFormed])
  | ⟨_, .index _ :: _, _⟩ => fun hw =>
    absurd (hw _ (List.mem_cons_self ..)) (by simp [Part.WellFormed])

/-- Those of its segments do. -/
theorem segments_rises : ∀ segs, Rises S (Outline.segments segs) (segments segs)
  | [] => .nil
  | .name n _ :: rest => .name n (segments_rises rest)
  | .index e :: rest => (expr_rises e).append (segments_rises rest)

/-- Those of an assignment do. -/
theorem assignment_rises : ∀ a, Rises S [Outline.assignment a] (assignment a)
  | ⟨_, value, _⟩ => .landmark rfl (.inr rfl) (expr_rises value)

/-- Those of a declaration do. -/
theorem declaration_rises : ∀ d, Rises S [Outline.declaration d] (declaration d)
  | .assignment a => assignment_rises a
  | .template t => template_rises t

/-- Those of one behind a modifier do. -/
theorem visibility_rises : ∀ v, Rises S [Outline.visibility v] (visibility v)
  | ⟨_, keyword, decl, _⟩ => .pass rfl (.node (.name keyword (declaration_rises decl)))

/-- Those of a template do. -/
theorem template_rises : ∀ t, Rises S [Outline.template t] (template t)
  | ⟨_, params, body, _⟩ =>
    .landmark rfl (.inr rfl) ((members_rises params).append (object_rises body))

/-- Those of a member do. -/
theorem member_rises : ∀ m, Rises S [Outline.member m] (member m)
  | ⟨n, type?, value, _, _⟩ => .pass rfl (.node (.name n
    ((Outline.types_eq_map type?.toList ▸ types_rises type?.toList).append (expr?_rises value))))

/-- Those of several members do. -/
theorem members_rises : ∀ ms, Rises S (Outline.members ms) (members ms)
  | [] => .nil
  | m :: rest => (member_rises m).append (members_rises rest)

/-- Those of an entry do. -/
theorem entry_rises : ∀ e, Rises S [Outline.entry e] (entry e)
  | .member m => .pass rfl (member_rises m)
  | .assignment a => .pass rfl (assignment_rises a)
  | .visibility v => .pass rfl (visibility_rises v)
  | .reference r => .pass rfl (reference_rises r)
  | .error _ => .pass rfl (.pass rfl .leaf)

/-- Those of several entries do. -/
theorem entries_rises : ∀ es, Rises S (Outline.entries es) (entries es)
  | [] => .nil
  | e :: rest => (entry_rises e).append (entries_rises rest)

/-- Those of an object do. -/
theorem object_rises : ∀ o, Rises S [Outline.object o] (object o)
  | ⟨n, es, _⟩ => .pass rfl (.node (.name n (entries_rises es)))

end

/-- Those of an item do. -/
theorem item_rises (i : Item) : Rises S [Outline.item i] (item i) := by
  refine .pass rfl ?_
  cases i with
  | assignment a => exact assignment_rises a
  | visibility v => exact visibility_rises v
  | template t => exact template_rises t
  | unnamed u => exact .pass rfl (.node (object_rises u.object))
  | member m => exact member_rises m
  | expr e => exact expr_rises e
  | error e => exact .pass rfl .leaf

/-- Those of all items of a document do. -/
theorem items_rise (items : List Item) :
    Rises S (items.map Outline.item) (items.flatMap item) := by
  induction items with
  | nil => exact .nil
  | cons i items ih => exact (item_rises i).append ih

end Parts

/-- **The landmarks of a document come in the order of its text.** -/
theorem parse_climbs (source : String) : ∃ hi, Climbs 0 hi (parse source).document.parts := by
  obtain ⟨-, hi, hrow⟩ := parse_row source
  exact ⟨hi, Parts.items_rise _ (fun p hp => (parse_lawful source p hp).wellFormed)
    (Nat.zero_le hi) hrow⟩

/-- What is collected at landmarks of a document is in the order of its text. -/
theorem pairwise_filterMap_parts {α : Type} (source : String) {f : Part → Option α}
    {start : α → Nat} (hf : ∀ p a, f p = some a → p.landmark? = some (start a)) :
    ((parse source).document.parts.filterMap f).Pairwise fun a b => start a < start b := by
  obtain ⟨hi, hclimbs⟩ := parse_climbs source
  refine List.pairwise_filterMap.2 ((List.pairwise_filterMap.1 hclimbs.rising).imp ?_)
  exact fun h a ha b hb => h _ (hf _ a ha) _ (hf _ b hb)

/-- **Collections are complete and in the order of the source.**  The references of a document are
all references among its parts, each once, wherever they stand, and its declarations the names of
all assignments and templates; both come in the order of the text, no two of them at one place.
Unreadable fragments are counted once each. -/
theorem parse_collects (source : String) :
    ((parse source).document.references =
        (parse source).document.parts.filterMap Part.reference? ∧
      (parse source).document.references.Pairwise fun a b => a.span.start < b.span.start) ∧
    ((parse source).document.declarations =
        (parse source).document.parts.filterMap Part.declared? ∧
      (parse source).document.declarations.Pairwise fun a b => a.span.start < b.span.start) ∧
    (parse source).document.errorCount =
      ((parse source).document.parts.filterMap Part.error?).length := by
  refine ⟨⟨Document.references_eq _, ?_⟩, ⟨Document.declarations_eq _, ?_⟩,
    Document.errorCount_eq _⟩
  · rw [Document.references_eq]
    refine pairwise_filterMap_parts source fun p r hp => ?_
    cases p <;> cases hp
    rfl
  · rw [Document.declarations_eq]
    refine pairwise_filterMap_parts source fun p n hp => ?_
    cases p <;> cases hp <;> rfl

end Ndf
