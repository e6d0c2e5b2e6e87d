/-
# A dump tells all that it shows

`SPEC_FULL.md` E6: the dump is for structural comparison.

The parts of a node stand in its dump in a fixed order, and where a part can be missing the first
atom of what stands there says which part it is: a type has the word `type`, a colon of the old form
is an atom and no node, an expression has the name of its form, and stray commas have a word of
their own.  So two trees with the same dump show the same (`document_injective`).

Three things are left out of a dump.  The class of a word and the built-in type of a vector follow
from a name that is shown, since they are settled in both trees; whether an assignment is an item or
an expression that is one follows since no settled tree has the latter.
-/

import Ndf.Proofs.Dump.Legible
import Ndf.Proofs.Form.Document
import Ndf.Proofs.Tree.Shown

namespace Ndf

/-! ### First atoms -/

namespace Sexp

/-- The first atom of a node. -/
def tag? : Sexp → Option String
  | .node (.atom tag :: _) => some tag
  | _ => none

@[simp] theorem tag?_tagged (tag : String) (parts : List Sexp) :
    (tagged tag parts).tag? = some tag := rfl

/-- The tag and the parts can be told from a tagged list. -/
theorem tagged_inj {tag tag' : String} {parts parts' : List Sexp}
    (h : tagged tag parts = tagged tag' parts') : tag = tag' ∧ parts = parts' := by
  simpa [tagged] using h

/-- The tag and the text can be told from a leaf. -/
theorem leaf_inj {tag tag' text text' : String} (h : leaf tag text = leaf tag' text') :
    tag = tag' ∧ text = text' := by
  simpa [leaf, tagged] using h

end Sexp

/-- The names of the forms of an expression. -/
def Expr.typeNames : List String :=
  ["nil", "bool", "number_dec", "number_hex", "number_float", "string", "object", "vector_type",
    "list", "map", "pair", "unary_expression", "binary_expression", "ternary", "group", "generic",
    "guid", "reference", "assignment", "visibility", "ERROR"]

/-- The name of every kind of expression is among those names. -/
theorem Expr.typeName_mem (e : Expr) : e.typeName ∈ typeNames := by
  unfold typeName typeNames
  split <;> simp

/-- The name of an expression says what constructor it is of. -/
theorem Expr.ctorIdx_eq {a b : Expr} (h : a.typeName = b.typeName) : a.ctorIdx = b.ctorIdx := by
  unfold typeName at h
  split at h <;> split at h <;> first | rfl | simp at h

namespace Dump

open Sexp Parts

@[simp] theorem tag?_type (t : TypeRef) : (type t).tag? = some "type" := by
  cases t
  rfl

@[simp] theorem tag?_reference (r : Reference) : (reference r).tag? = some "reference" := by
  cases r
  rfl

@[simp] theorem tag?_assignment (a : Assignment) : (assignment a).tag? = some "assignment" := by
  cases a
  rfl

@[simp] theorem tag?_visibility (v : Visibility) : (visibility v).tag? = some "visibility" := by
  cases v
  rfl

@[simp] theorem tag?_template (t : Template) : (template t).tag? = some "template" := by
  cases t
  rfl

@[simp] theorem tag?_member (m : Member) : (member m).tag? = some "member" := by
  cases m
  rfl

@[simp] theorem tag?_object (o : Object) : (object o).tag? = some "object" := by
  cases o
  rfl

@[simp] theorem tag?_error (e : ErrorNode) : (error e).tag? = some "ERROR" := rfl

@[simp] theorem tag?_expr (e : Expr) : (expr e).tag? = some e.typeName := by
  cases e with
  | object o => exact tag?_object o
  | reference r => exact tag?_reference r
  | assignment a => exact tag?_assignment a
  | visibility v => exact tag?_visibility v
  | _ => rfl

/-- No expression starts with a word that names none. -/
theorem tag?_expr_ne {tag : String} (h : tag ∉ Expr.typeNames) (e : Expr) :
    (expr e).tag? ≠ some tag := by
  rw [tag?_expr]
  exact fun he => h (Option.some.inj he ▸ e.typeName_mem)

/-- Expressions of different constructors have different dumps. -/
theorem ctorIdx_expr {a b : Expr} (h : expr a = expr b) : a.ctorIdx = b.ctorIdx := by
  refine Expr.ctorIdx_eq (Option.some.inj ?_)
  rw [← tag?_expr, ← tag?_expr, h]

/-- Entries of different constructors have different dumps. -/
theorem ctorIdx_entry {a b : Entry} (h : entry a = entry b) : a.ctorIdx = b.ctorIdx := by
  have htag := congrArg tag? h
  cases a <;> cases b <;> first | rfl | simp [entry] at htag

/-- An item that is an expression has no word that another kind of item has. -/
theorem typeName_of_item {e : Expr} (h : (Part.item (.expr e)).WellFormed) :
    e.typeName ∉ ["assignment", "visibility", "template", "unnamed", "member", "ERROR"] := by
  cases e with
  | number kind => cases kind <;> simp [Expr.typeName]
  | assignment | visibility | error => exact h.elim
  | _ => simp [Expr.typeName]

/-- Items of different constructors have different dumps. -/
theorem ctorIdx_item {a b : Item} (ha : (Part.item a).WellFormed) (hb : (Part.item b).WellFormed)
    (h : item a = item b) : a.ctorIdx = b.ctorIdx := by
  have htag := congrArg tag? h
  cases a with
  | expr e =>
    have := typeName_of_item ha
    cases b <;> first | rfl | (simp [item] at htag; simp [htag] at this)
  | _ =>
    cases b with
    | expr e =>
      have := typeName_of_item hb
      simp [item] at htag
      simp [← htag] at this
    | _ => first | rfl | simp [item] at htag

/-! ### Parts that can be missing -/

/-- A scope can be told from its dump. -/
theorem scope_injective {s t : Scope} (h : scope s = scope t) : s = t := by
  cases s <;> cases t <;> first | rfl | simp [scope] at h

/-- A number of stray commas can be told from its dump. -/
theorem strayCommas_injective {n m : Nat} (h : strayCommas n = strayCommas m) : n = m := by
  unfold strayCommas at h
  split at h <;> split at h
  · omega
  · cases h
  · cases h
  · have hdigits := (leaf_inj (List.singleton_inj.1 h)).2
    simp only [Nat.toString_eq_repr, Nat.repr_eq_ofList_toDigits, String.ofList_inj] at hdigits
    exact Text.toDigits_injective (by decide) (by decide) hdigits

/-- All parts of the dump of some expressions are dumps of expressions. -/
theorem mem_exprs {es : List Expr} {s : Sexp} (h : s ∈ exprs es) : ∃ e, s = expr e := by
  induction es with
  | nil => cases h
  | cons e es ih =>
    rcases List.mem_cons.1 h with rfl | h
    · exact ⟨e, rfl⟩
    · exact ih h

/-- Elements end where stray commas are counted. -/
theorem items_append_inj {xs ys : List Expr} {n m : Nat}
    (h : exprs xs ++ strayCommas n = exprs ys ++ strayCommas m) :
    exprs xs = exprs ys ∧ n = m := by
  have element {es : List Expr} : ∀ s ∈ exprs es, (s.tag? != some "stray_commas") = true := by
    intro s hs
    obtain ⟨e, rfl⟩ := mem_exprs hs
    exact bne_iff_ne.2 (tag?_expr_ne (by decide) e)
  have strays {n : Nat} : ∀ s ∈ (strayCommas n).head?, (s.tag? != some "stray_commas") = false := by
    intro s hs
    unfold strayCommas at hs
    split at hs
    · cases hs
    · cases hs
      rfl
  obtain ⟨hitems, hstray⟩ := append_inj_of_test element element strays strays h
  exact ⟨hitems, strayCommas_injective hstray⟩

/-- The steps of a reference are nodes, and its scope is none. -/
theorem scope_append_inj {s t : Scope} {xs ys : List Segment}
    (h : scope s ++ segments xs = scope t ++ segments ys) : s = t ∧ segments xs = segments ys := by
  have atom {s : Scope} : ∀ x ∈ scope s, x.tag?.isNone = true := by
    cases s <;> simp [scope, tag?]
  have node {xs : List Segment} : ∀ x ∈ (segments xs).head?, x.tag?.isNone = false := by
    intro x hx
    rcases xs with _ | ⟨_ | _, _⟩
    · cases hx
    all_goals
      cases hx
      rfl
  obtain ⟨hscope, hsegments⟩ := append_inj_of_test atom atom node node h
  exact ⟨scope_injective hscope, hsegments⟩

/-- What follows the name of a member: its type, its colon and its value can be told apart. -/
theorem member_append_inj {s t : Option TypeRef} {l m : Bool} {a b : Option Expr}
    (h : s.toList.map type ++ ((if l then [.atom "legacy"] else []) ++ expr? a) =
      t.toList.map type ++ ((if m then [.atom "legacy"] else []) ++ expr? b)) :
    s.map type = t.map type ∧ l = m ∧ expr? a = expr? b := by
  have isType {t : Option TypeRef} : ∀ x ∈ t.toList.map type, (x.tag? == some "type") = true := by
    cases t <;> simp
  have isValue {l : Bool} {a : Option Expr} :
      ∀ x ∈ ((if l then [Sexp.atom "legacy"] else []) ++ expr? a).head?,
        (x.tag? == some "type") = false := by
    intro x hx
    cases l with
    | true =>
      cases hx
      rfl
    | false =>
      cases a with
      | none => cases hx
      | some e =>
        cases hx
        exact beq_eq_false_iff_ne.2 (tag?_expr_ne (by decide) e)
  have isAtom {l : Bool} :
      ∀ x ∈ (if l then [Sexp.atom "legacy"] else []), x.tag?.isNone = true := by
    cases l <;> simp [tag?]
  have isNode {a : Option Expr} : ∀ x ∈ (expr? a).head?, x.tag?.isNone = false := by
    cases a <;> simp [expr?]
  obtain ⟨htype, hrest⟩ := append_inj_of_test isType isType isValue isValue h
  obtain ⟨hlegacy, hvalue⟩ := append_inj_of_test isAtom isAtom isNode isNode hrest
  refine ⟨?_, ?_, hvalue⟩
  · cases s <;> cases t <;> simp at htype ⊢
    exact htype
  · cases l <;> cases m <;> first | rfl | cases hlegacy

/-! ### What a dump leaves out -/

/-- The text of a name is all that its dump shows. -/
theorem name_injective {tag : String} {n m : Name} (h : leaf tag n.text = leaf tag m.text) :
    Bare.name n = Bare.name m := by
  rw [Bare.name, Bare.name, (leaf_inj h).2]

/-- The text of a fragment is all that its dump shows. -/
theorem error_injective {e f : ErrorNode} (h : error e = error f) :
    Shown.errorNode e = Shown.errorNode f := by
  rw [Shown.errorNode, Shown.errorNode, Text.quoted_injective (leaf_inj h).2]

/-- The built-in type of a vector follows from its name. -/
theorem builtin_eq {n m : Name} {b c : Option VectorType} {xs ys : List Expr} {k l : Nat}
    {s t : Span} (hb : (Part.expr (.vector n b xs k s)).WellFormed)
    (hc : (Part.expr (.vector m c ys l t)).WellFormed) (h : n.text = m.text) : b = c :=
  Option.ext fun v => (hb.2 v).trans (h ▸ (hc.2 v).symm)

/-! ### Trees

The recursion is on the first of the two trees; the first atom says that the second one is made in
the same way. -/

mutual

/-- Types with the same dump differ in spans alone. -/
theorem type_injective : ∀ {s t : TypeRef}, Settled (Parts.type s) → Settled (Parts.type t) →
    type s = type t → Bare.type s = Bare.type t
  | ⟨n, c, params, _⟩, ⟨m, d, params', _⟩, hs, ht, h => by
    rw [Parts.type, settled_cons, settled_cons] at hs ht
    obtain ⟨hn, hparams⟩ := List.cons.inj (tagged_inj h).2
    have htext : n.text = m.text := Sexp.atom.inj hn
    have hclass : c = d := hs.1.1.trans ((congrArg Word.classify htext).trans ht.1.1.symm)
    rw [Bare.type, Bare.type, Bare.name, Bare.name, htext, hclass,
      types_injective hs.2.2 ht.2.2 hparams]

/-- Neither do the parameters of a type differ otherwise. -/
theorem types_injective : ∀ {ss ts : List TypeRef}, Settled (Parts.types ss) →
    Settled (Parts.types ts) → types ss = types ts → Bare.types ss = Bare.types ts
  | [], [], _, _, _ => rfl
  | s :: ss, t :: ts, hs, ht, h => by
    rw [Parts.types, settled_append] at hs ht
    obtain ⟨hfirst, hrest⟩ := List.cons.inj h
    rw [Bare.types, Bare.types, type_injective hs.1 ht.1 hfirst, types_injective hs.2 ht.2 hrest]

end

/-- Nor a type that may be missing. -/
theorem type?_injective {s t : Option TypeRef} (hs : Settled (Parts.types s.toList))
    (ht : Settled (Parts.types t.toList)) (h : s.map type = t.map type) :
    s.map Bare.type = t.map Bare.type := by
  cases s with
  | none =>
    cases t with
    | none => rfl
    | some t => cases h
  | some s =>
    cases t with
    | none => cases h
    | some t =>
      rw [Option.toList_some, Parts.types, settled_append] at hs ht
      exact congrArg some (type_injective hs.1 ht.1 (Option.some.inj h))

mutual

/-- Expressions with the same dump are shown alike. -/
theorem expr_injective : ∀ {a b : Expr}, Settled (Parts.expr a) → Settled (Parts.expr b) →
    expr a = expr b → Shown.expr a = Shown.expr b
  | .nil _, b, _, _, h => by
    cases b with
    | nil => rfl
    | _ => cases ctorIdx_expr h
  | .bool v _, b, _, _, h => by
    cases b with
    | bool w => cases v <;> cases w <;> first | rfl | exact absurd (leaf_inj h).2 (by decide)
    | _ => cases ctorIdx_expr h
  | .number k text _, b, _, _, h => by
    cases b with
    | number l text' =>
      obtain ⟨htag, rfl⟩ := leaf_inj h
      cases k <;> cases l <;> first | rfl | simp [Expr.typeName] at htag
    | _ => cases ctorIdx_expr h
  | .string q raw _, b, _, _, h => by
    cases b with
    | string q' raw' =>
      obtain ⟨hq, hraw⟩ := List.cons.inj (String.ofList_inj.1 (leaf_inj h).2)
      obtain rfl : q = q' := by cases q <;> cases q' <;> first | rfl | simp [Quote.char] at hq
      rw [Shown.expr, Shown.expr, String.toList_inj.1 (List.append_cancel_right hraw)]
    | _ => cases ctorIdx_expr h
  | .object o, b, ha, hb, h => by
    cases b with
    | object p =>
      rw [Parts.expr, settled_cons] at ha hb
      exact congrArg Expr.object (object_injective ha.2 hb.2 h)
    | _ => cases ctorIdx_expr h
  | .vector n c xs k _, b, ha, hb, h => by
    cases b with
    | vector m d ys l =>
      rw [Parts.expr, settled_cons, settled_cons] at ha hb
      obtain ⟨hn, hrest⟩ := List.cons.inj (tagged_inj h).2
      obtain ⟨hitems, rfl⟩ := items_append_inj hrest
      rw [Shown.expr, Shown.expr, name_injective hn, builtin_eq ha.1.1 hb.1.1 (leaf_inj hn).2,
        exprs_injective ha.2.2 hb.2.2 hitems]
    | _ => cases ctorIdx_expr h
  | .list xs k _, b, ha, hb, h => by
    cases b with
    | list ys l =>
      rw [Parts.expr, settled_cons] at ha hb
      obtain ⟨hitems, rfl⟩ := items_append_inj (tagged_inj h).2
      rw [Shown.expr, Shown.expr, exprs_injective ha.2 hb.2 hitems]
    | _ => cases ctorIdx_expr h
  | .map _ xs _, b, ha, hb, h => by
    cases b with
    | map _ ys =>
      rw [Parts.expr, settled_cons, settled_cons] at ha hb
      rw [Shown.expr, Shown.expr, exprs_injective ha.2.2 hb.2.2 (tagged_inj h).2]
    | _ => cases ctorIdx_expr h
  | .pair x y _, b, ha, hb, h => by
    cases b with
    | pair x' y' =>
      rw [Parts.expr, settled_cons, settled_append] at ha hb
      obtain ⟨hx, hrest⟩ := List.cons.inj (tagged_inj h).2
      rw [Shown.expr, Shown.expr, expr_injective ha.2.1 hb.2.1 hx,
        expr_injective ha.2.2 hb.2.2 (List.cons.inj hrest).1]
    | _ => cases ctorIdx_expr h
  | .unary op x _, b, ha, hb, h => by
    cases b with
    | unary op' x' =>
      rw [Parts.expr, settled_cons] at ha hb
      obtain ⟨hop, hrest⟩ := List.cons.inj (tagged_inj h).2
      rw [Shown.expr, Shown.expr, UnaryOp.sign_injective (Sexp.atom.inj hop),
        expr_injective ha.2 hb.2 (List.cons.inj hrest).1]
    | _ => cases ctorIdx_expr h
  | .binary op x y _, b, ha, hb, h => by
    cases b with
    | binary op' x' y' =>
      rw [Parts.expr, settled_cons, settled_append] at ha hb
      obtain ⟨hx, hrest⟩ := List.cons.inj (tagged_inj h).2
      obtain ⟨hop, hlast⟩ := List.cons.inj hrest
      rw [Shown.expr, Shown.expr, expr_injective ha.2.1 hb.2.1 hx,
        BinaryOp.sign_injective (Sexp.atom.inj hop),
        expr_injective ha.2.2 hb.2.2 (List.cons.inj hlast).1]
    | _ => cases ctorIdx_expr h
  | .ternary x y z _, b, ha, hb, h => by
    cases b with
    | ternary x' y' z' =>
      rw [Parts.expr, settled_cons, settled_append, settled_append] at ha hb
      obtain ⟨hx, hrest⟩ := List.cons.inj (tagged_inj h).2
      obtain ⟨hy, hlast⟩ := List.cons.inj hrest
      rw [Shown.expr, Shown.expr, expr_injective ha.2.1 hb.2.1 hx,
        expr_injective ha.2.2.1 hb.2.2.1 hy,
        expr_injective ha.2.2.2 hb.2.2.2 (List.cons.inj hlast).1]
    | _ => cases ctorIdx_expr h
  | .group x _, b, ha, hb, h => by
    cases b with
    | group y =>
      rw [Parts.expr, settled_cons] at ha hb
      rw [Shown.expr, Shown.expr, expr?_injective ha.2 hb.2 (tagged_inj h).2]
    | _ => cases ctorIdx_expr h
  | .generic n x _, b, ha, hb, h => by
    cases b with
    | generic m y =>
      rw [Parts.expr, settled_cons, settled_cons] at ha hb
      obtain ⟨hn, hrest⟩ := List.cons.inj (tagged_inj h).2
      rw [Shown.expr, Shown.expr, name_injective hn, expr?_injective ha.2.2 hb.2.2 hrest]
    | _ => cases ctorIdx_expr h
  | .guid raw _, b, _, _, h => by
    cases b with
    | guid raw' =>
      have htext := (leaf_inj h).2
      rw [String.append_left_inj, String.append_right_inj] at htext
      rw [Shown.expr, Shown.expr, htext]
    | _ => cases ctorIdx_expr h
  | .reference r, b, ha, hb, h => by
    cases b with
    | reference q =>
      rw [Parts.expr, settled_cons] at ha hb
      exact congrArg Expr.reference (reference_injective ha.2 hb.2 h)
    | _ => cases ctorIdx_expr h
  | .assignment a, b, ha, hb, h => by
    cases b with
    | assignment c =>
      rw [Parts.expr, settled_cons] at ha hb
      exact congrArg Expr.assignment (assignment_injective ha.2 hb.2 h)
    | _ => cases ctorIdx_expr h
  | .visibility v, b, ha, hb, h => by
    cases b with
    | visibility w =>
      rw [Parts.expr, settled_cons] at ha hb
      exact congrArg Expr.visibility (visibility_injective ha.2 hb.2 h)
    | _ => cases ctorIdx_expr h
  | .error e, b, _, _, h => by
    cases b with
    | error e' => exact congrArg Expr.error (error_injective h)
    | _ => cases ctorIdx_expr h
termination_by structural x => x

/-- And those in a list. -/
theorem exprs_injective : ∀ {xs ys : List Expr}, Settled (Parts.exprs xs) →
    Settled (Parts.exprs ys) → exprs xs = exprs ys → Shown.exprs xs = Shown.exprs ys
  | [], [], _, _, _ => rfl
  | x :: xs, y :: ys, hx, hy, h => by
    rw [Parts.exprs, settled_append] at hx hy
    obtain ⟨hfirst, hrest⟩ := List.cons.inj h
    rw [Shown.exprs, Shown.exprs, expr_injective hx.1 hy.1 hfirst,
      exprs_injective hx.2 hy.2 hrest]
termination_by structural x => x

/-- And one that may be missing. -/
theorem expr?_injective : ∀ {x y : Option Expr}, Settled (Parts.expr? x) →
    Settled (Parts.expr? y) → expr? x = expr? y → Shown.expr? x = Shown.expr? y
  | none, none, _, _, _ => rfl
  | some x, some y, hx, hy, h => by
    rw [Shown.expr?, Shown.expr?, expr_injective hx hy (List.cons.inj h).1]
termination_by structural x => x

/-- References with the same dump are shown alike. -/
theorem reference_injective : ∀ {r q : Reference}, Settled (Parts.reference r) →
    Settled (Parts.reference q) → reference r = reference q →
    Shown.reference r = Shown.reference q
  | ⟨s, xs, _⟩, ⟨t, ys, _⟩, hr, hq, h => by
    rw [Parts.reference, settled_cons] at hr hq
    obtain ⟨rfl, hsegments⟩ := scope_append_inj (tagged_inj h).2
    rw [Shown.reference, Shown.reference, segments_injective hr.2 hq.2 hsegments]
termination_by structural x => x

/-- Their segments can be told one by one. -/
theorem segments_injective : ∀ {xs ys : List Segment}, Settled (Parts.segments xs) →
    Settled (Parts.segments ys) → segments xs = segments ys →
    Shown.segments xs = Shown.segments ys
  | [], [], _, _, _ => rfl
  | .name n k :: xs, .name m l :: ys, hx, hy, h => by
    rw [Parts.segments, settled_cons] at hx hy
    obtain ⟨hfirst, hrest⟩ := List.cons.inj h
    obtain ⟨hkind, htext⟩ := leaf_inj hfirst
    obtain rfl : k = l := by cases k <;> cases l <;> first | rfl | simp [segmentKind] at hkind
    rw [Shown.segments, Shown.segments, Shown.segment, Shown.segment, name_injective hfirst,
      segments_injective hx.2 hy.2 hrest]
  | .name _ k :: _, .index _ :: _, _, _, h => by
    have htag := (tagged_inj (List.cons.inj h).1).1
    cases k <;> simp [segmentKind] at htag
  | .index _ :: _, .name _ k :: _, _, _, h => by
    have htag := (tagged_inj (List.cons.inj h).1).1
    cases k <;> simp [segmentKind] at htag
  | .index x :: xs, .index y :: ys, hx, hy, h => by
    rw [Parts.segments, settled_append] at hx hy
    obtain ⟨hfirst, hrest⟩ := List.cons.inj h
    have hindex := (List.cons.inj (tagged_inj hfirst).2).1
    rw [Shown.segments, Shown.segments, Shown.segment, Shown.segment,
      expr_injective hx.1 hy.1 hindex, segments_injective hx.2 hy.2 hrest]
termination_by structural x => x

/-- Assignments with the same dump are shown alike. -/
theorem assignment_injective : ∀ {a b : Assignment}, Settled (Parts.assignment a) →
    Settled (Parts.assignment b) → assignment a = assignment b →
    Shown.assignment a = Shown.assignment b
  | ⟨n, x, _⟩, ⟨m, y, _⟩, ha, hb, h => by
    rw [Parts.assignment, settled_cons, settled_cons] at ha hb
    obtain ⟨hn, hrest⟩ := List.cons.inj (tagged_inj h).2
    rw [Shown.assignment, Shown.assignment, name_injective hn,
      expr_injective ha.2.2 hb.2.2 (List.cons.inj hrest).1]
termination_by structural x => x

/-- A dump tells an assignment and a template apart. -/
theorem declaration_injective : ∀ {d c : Declaration}, Settled (Parts.declaration d) →
    Settled (Parts.declaration c) → declaration d = declaration c →
    Shown.declaration d = Shown.declaration c
  | .assignment a, .assignment b, hd, hc, h => by
    rw [Shown.declaration, Shown.declaration, assignment_injective hd hc h]
  | .assignment a, .template t, _, _, h => by
    have htag := congrArg tag? h
    simp [declaration] at htag
  | .template t, .assignment a, _, _, h => by
    have htag := congrArg tag? h
    simp [declaration] at htag
  | .template t, .template u, hd, hc, h => by
    rw [Shown.declaration, Shown.declaration, template_injective hd hc h]
termination_by structural x => x

/-- A dump tells the modifiers apart, not how they were spelled. -/
theorem visibility_injective : ∀ {v w : Visibility}, Settled (Parts.visibility v) →
    Settled (Parts.visibility w) → visibility v = visibility w →
    Shown.visibility v = Shown.visibility w
  | ⟨m, _, d, _⟩, ⟨m', _, c, _⟩, hv, hw, h => by
    rw [Parts.visibility, settled_cons, settled_cons] at hv hw
    obtain ⟨hm, hrest⟩ := List.cons.inj (tagged_inj h).2
    have hspelling : m.spelling = m'.spelling := Sexp.atom.inj hm
    obtain rfl : m = m' := by
      cases m <;> cases m' <;> first | rfl | simp [Modifier.spelling] at hspelling
    rw [Shown.visibility, Shown.visibility,
      declaration_injective hv.2.2 hw.2.2 (List.cons.inj hrest).1]
termination_by structural x => x

/-- Templates with the same dump are shown alike. -/
theorem template_injective : ∀ {t u : Template}, Settled (Parts.template t) →
    Settled (Parts.template u) → template t = template u → Shown.template t = Shown.template u
  | ⟨n, xs, o, _⟩, ⟨m, ys, p, _⟩, ht, hu, h => by
    rw [Parts.template, settled_cons, settled_cons, settled_append] at ht hu
    obtain ⟨hn, hrest⟩ := List.cons.inj (tagged_inj h).2
    obtain ⟨hparams, hbody⟩ := List.cons.inj hrest
    rw [Shown.template, Shown.template, name_injective hn,
      members_injective ht.2.2.1 hu.2.2.1 (tagged_inj hparams).2,
      object_injective ht.2.2.2 hu.2.2.2 (List.cons.inj hbody).1]
termination_by structural x => x

/-- A dump tells a type from a value, and the colon in front of a value. -/
theorem member_injective : ∀ {x y : Member}, Settled (Parts.member x) →
    Settled (Parts.member y) → member x = member y → Shown.member x = Shown.member y
  | ⟨n, s, a, l, _⟩, ⟨m, t, b, k, _⟩, hx, hy, h => by
    rw [Parts.member, settled_cons, settled_cons, settled_append] at hx hy
    obtain ⟨hn, hrest⟩ := List.cons.inj (tagged_inj h).2
    obtain ⟨htype, rfl, hvalue⟩ := member_append_inj hrest
    rw [Shown.member, Shown.member, name_injective hn,
      type?_injective hx.2.2.1 hy.2.2.1 htype, expr?_injective hx.2.2.2 hy.2.2.2 hvalue]
termination_by structural x => x

/-- And the members of a list. -/
theorem members_injective : ∀ {xs ys : List Member}, Settled (Parts.members xs) →
    Settled (Parts.members ys) → members xs = members ys → Shown.members xs = Shown.members ys
  | [], [], _, _, _ => rfl
  | x :: xs, y :: ys, hx, hy, h => by
    rw [Parts.members, settled_append] at hx hy
    obtain ⟨hfirst, hrest⟩ := List.cons.inj h
    rw [Shown.members, Shown.members, member_injective hx.1 hy.1 hfirst,
      members_injective hx.2 hy.2 hrest]
termination_by structural x => x

/-- A dump tells the kinds of entries apart. -/
theorem entry_injective : ∀ {x y : Entry}, Settled (Parts.entry x) → Settled (Parts.entry y) →
    entry x = entry y → Shown.entry x = Shown.entry y
  | .member m, y, hx, hy, h => by
    cases y with
    | member m' =>
      exact congrArg Entry.member
        (member_injective (settled_cons.1 hx).2 (settled_cons.1 hy).2 h)
    | _ => cases ctorIdx_entry h
  | .assignment a, y, hx, hy, h => by
    cases y with
    | assignment b =>
      exact congrArg Entry.assignment
        (assignment_injective (settled_cons.1 hx).2 (settled_cons.1 hy).2 h)
    | _ => cases ctorIdx_entry h
  | .visibility v, y, hx, hy, h => by
    cases y with
    | visibility w =>
      exact congrArg Entry.visibility
        (visibility_injective (settled_cons.1 hx).2 (settled_cons.1 hy).2 h)
    | _ => cases ctorIdx_entry h
  | .reference r, y, hx, hy, h => by
    cases y with
    | reference q =>
      exact congrArg Entry.reference
        (reference_injective (settled_cons.1 hx).2 (settled_cons.1 hy).2 h)
    | _ => cases ctorIdx_entry h
  | .error e, y, _, _, h => by
    cases y with
    | error e' => exact congrArg Entry.error (error_injective h)
    | _ => cases ctorIdx_entry h
termination_by structural x => x

/-- And the entries of a list. -/
theorem entries_injective : ∀ {xs ys : List Entry}, Settled (Parts.entries xs) →
    Settled (Parts.entries ys) → entries xs = entries ys → Shown.entries xs = Shown.entries ys
  | [], [], _, _, _ => rfl
  | x :: xs, y :: ys, hx, hy, h => by
    rw [Parts.entries, settled_append] at hx hy
    obtain ⟨hfirst, hrest⟩ := List.cons.inj h
    rw [Shown.entries, Shown.entries, entry_injective hx.1 hy.1 hfirst,
      entries_injective hx.2 hy.2 hrest]
termination_by structural x => x

/-- Objects with the same dump are shown alike. -/
theorem object_injective : ∀ {o p : Object}, Settled (Parts.object o) →
    Settled (Parts.object p) → object o = object p → Shown.object o = Shown.object p
  | ⟨n, xs, _⟩, ⟨m, ys, _⟩, ho, hp, h => by
    rw [Parts.object, settled_cons, settled_cons] at ho hp
    obtain ⟨hn, hrest⟩ := List.cons.inj (tagged_inj h).2
    rw [Shown.object, Shown.object, name_injective hn, entries_injective ho.2.2 hp.2.2 hrest]
termination_by structural x => x

end

/-- **Items with the same dump show the same.** -/
theorem item_injective {x y : Item} (hx : Settled (Parts.item x)) (hy : Settled (Parts.item y))
    (h : item x = item y) : Shown.item x = Shown.item y := by
  rw [Parts.item, settled_cons] at hx hy
  have hform := ctorIdx_item hx.1.1 hy.1.1 h
  cases x with
  | assignment a =>
    cases y with
    | assignment b => exact congrArg Item.assignment (assignment_injective hx.2 hy.2 h)
    | _ => cases hform
  | visibility v =>
    cases y with
    | visibility w => exact congrArg Item.visibility (visibility_injective hx.2 hy.2 h)
    | _ => cases hform
  | template t =>
    cases y with
    | template u => exact congrArg Item.template (template_injective hx.2 hy.2 h)
    | _ => cases hform
  | unnamed u =>
    cases y with
    | unnamed v =>
      have hobject := object_injective (settled_cons.1 hx.2).2 (settled_cons.1 hy.2).2
        (List.cons.inj (tagged_inj h).2).1
      rw [Shown.item, Shown.item, hobject]
    | _ => cases hform
  | member m =>
    cases y with
    | member n => exact congrArg Item.member (member_injective hx.2 hy.2 h)
    | _ => cases hform
  | expr a =>
    cases y with
    | expr b => exact congrArg Item.expr (expr_injective hx.2 hy.2 h)
    | _ => cases hform
  | error e =>
    cases y with
    | error f => exact congrArg Item.error (error_injective h)
    | _ => cases hform

/-- And the items of a document. -/
theorem items_injective : ∀ {xs ys : List Item}, Settled (xs.flatMap Parts.item) →
    Settled (ys.flatMap Parts.item) → xs.map item = ys.map item →
    xs.map Shown.item = ys.map Shown.item
  | [], [], _, _, _ => rfl
  | x :: xs, y :: ys, hx, hy, h => by
    rw [List.flatMap_cons, settled_append] at hx hy
    obtain ⟨hfirst, hrest⟩ := List.cons.inj h
    rw [List.map_cons, List.map_cons, item_injective hx.1 hy.1 hfirst,
      items_injective hx.2 hy.2 hrest]

/-- **Documents with the same dump show the same.** -/
theorem document_injective {c d : Document} (hc : Settled c.parts) (hd : Settled d.parts)
    (h : c.dump = d.dump) : c.shown = d.shown := by
  have hsexp : document c = document d :=
    render_injective (legible_document hc) (legible_document hd) h
  unfold Document.shown
  rw [items_injective hc hd (tagged_inj hsexp).2]

end Dump

/-- **A dump is a fingerprint.**  The documents of two sources have the same dump exactly if they
are equal but for the places of their parts and the spelling of modifiers and of the word in front
of a map, however broken the sources are. -/
theorem parse_dump_eq_iff (s t : String) :
    (parse s).document.dump = (parse t).document.dump ↔
      (parse s).document.shown = (parse t).document.shown := by
  constructor
  · exact Dump.document_injective (parse_lawful s).settled (parse_lawful t).settled
  · intro h
    rw [← Document.dump_shown, h, Document.dump_shown]

example : (parse "Export A is map[ ]").document.dump =
    "(source_file (visibility export (assignment (name A) (map))))" := by cbv

end Ndf
