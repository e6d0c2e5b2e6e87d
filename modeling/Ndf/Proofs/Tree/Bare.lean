/-
# Trees without places

What is left of a tree if it is not said where its parts stand: every span becomes `Span.zero`, and
an unreadable fragment keeps nothing but that it is one, since its text is a piece of the source
with all its white space and comments.  Names, literals, stray commas and the order of the parts
are kept.

A tree without unreadable fragments has the dump of its bare form (`Document.dump_bare`), so two
sources with the same bare trees have the same dumps.
-/

import Ndf.Tree.Dump
import Ndf.Tree.Walk

namespace Ndf
namespace Bare

def name (n : Name) : Name := ⟨n.text, .zero⟩

/-- An unreadable fragment without its text. -/
def errorNode (_ : ErrorNode) : ErrorNode := ⟨.zero, ""⟩

mutual

def type : TypeRef → TypeRef
  | ⟨n, wordClass, params, _⟩ => ⟨name n, wordClass, types params, .zero⟩

def types : List TypeRef → List TypeRef
  | [] => []
  | t :: rest => type t :: types rest

end

mutual

/-- An expression without places. -/
def expr : Expr → Expr
  | .nil _ => .nil .zero
  | .bool b _ => .bool b .zero
  | .number k t _ => .number k t .zero
  | .string q t _ => .string q t .zero
  | .object o => .object (object o)
  | .vector n b items c _ => .vector (name n) b (exprs items) c .zero
  | .list items c _ => .list (exprs items) c .zero
  | .map n pairs _ => .map (name n) (exprs pairs) .zero
  | .pair a b _ => .pair (expr a) (expr b) .zero
  | .unary op e _ => .unary op (expr e) .zero
  | .binary op a b _ => .binary op (expr a) (expr b) .zero
  | .ternary c a b _ => .ternary (expr c) (expr a) (expr b) .zero
  | .group inner _ => .group (expr? inner) .zero
  | .generic n index _ => .generic (name n) (expr? index) .zero
  | .guid t _ => .guid t .zero
  | .reference x => .reference (reference x)
  | .assignment a => .assignment (assignment a)
  | .visibility v => .visibility (visibility v)
  | .error e => .error (errorNode e)

def exprs : List Expr → List Expr
  | [] => []
  | e :: rest => expr e :: exprs rest

def expr? : Option Expr → Option Expr
  | none => none
  | some e => some (expr e)

def reference : Reference → Reference
  | ⟨scope, segs, _⟩ => ⟨scope, segments segs, .zero⟩

def segment : Segment → Segment
  | .name n kind => .name (name n) kind
  | .index e => .index (expr e)

def segments : List Segment → List Segment
  | [] => []
  | x :: rest => segment x :: segments rest

def assignment : Assignment → Assignment
  | ⟨n, value, _⟩ => ⟨name n, expr value, .zero⟩

def declaration : Declaration → Declaration
  | .assignment a => .assignment (assignment a)
  | .template t => .template (template t)

def visibility : Visibility → Visibility
  | ⟨modifier, keyword, decl, _⟩ => ⟨modifier, name keyword, declaration decl, .zero⟩

def template : Template → Template
  | ⟨n, params, body, _⟩ => ⟨name n, members params, object body, .zero⟩

def member : Member → Member
  | ⟨n, type?, value, legacyColon, _⟩ => ⟨name n, type?.map type, expr? value, legacyColon, .zero⟩

def members : List Member → List Member
  | [] => []
  | m :: rest => member m :: members rest

def entry : Entry → Entry
  | .member m => .member (member m)
  | .assignment a => .assignment (assignment a)
  | .visibility v => .visibility (visibility v)
  | .reference x => .reference (reference x)
  | .error e => .error (errorNode e)

def entries : List Entry → List Entry
  | [] => []
  | e :: rest => entry e :: entries rest

def object : Object → Object
  | ⟨n, es, _⟩ => ⟨name n, entries es, .zero⟩

end

def unnamed (u : Unnamed) : Unnamed := ⟨object u.object, .zero⟩

/-- An item without places. -/
def item : Item → Item
  | .assignment a => .assignment (assignment a)
  | .visibility v => .visibility (visibility v)
  | .template t => .template (template t)
  | .unnamed u => .unnamed (unnamed u)
  | .member m => .member (member m)
  | .expr e => .expr (expr e)
  | .error e => .error (errorNode e)

theorem types_eq_map (ts : List TypeRef) : types ts = ts.map type := by
  induction ts with
  | nil => rfl
  | cons t ts ih => rw [types, ih, List.map_cons]

theorem exprs_eq_map (es : List Expr) : exprs es = es.map expr := by
  induction es with
  | nil => rfl
  | cons e es ih => rw [exprs, ih, List.map_cons]

theorem expr?_eq_map (e : Option Expr) : expr? e = e.map expr := by
  cases e <;> rfl

theorem members_eq_map (ms : List Member) : members ms = ms.map member := by
  induction ms with
  | nil => rfl
  | cons m ms ih => rw [members, ih, List.map_cons]

theorem entries_eq_map (es : List Entry) : entries es = es.map entry := by
  induction es with
  | nil => rfl
  | cons e es ih => rw [entries, ih, List.map_cons]

/-! ### Dumps

Nothing of what a dump shows is lost, fragments apart. -/

/-- Nothing unreadable is met. -/
def Readable (visits : List Visit) : Prop := ∀ v ∈ visits, v.isError = false

@[simp] theorem readable_nil : Readable [] := fun _ h => nomatch h

@[simp] theorem readable_cons (v : Visit) (vs : List Visit) :
    Readable (v :: vs) ↔ v.isError = false ∧ Readable vs := by
  simp [Readable]

@[simp] theorem readable_append (vs us : List Visit) :
    Readable (vs ++ us) ↔ Readable vs ∧ Readable us := by
  simp [Readable, or_imp, forall_and]

/-- Entering and leaving an expression meets nothing unreadable by itself. -/
@[simp] theorem readable_around (e : Expr) (inside : List Visit) :
    Readable (Walk.expr.around e inside) ↔ Readable inside := by
  simp [Walk.expr.around, Visit.isError]

mutual

theorem type_dump : ∀ t, Dump.type (type t) = Dump.type t
  | ⟨n, c, params, s⟩ => by rw [type, Dump.type, Dump.type, types_dump params]; rfl

theorem types_dump : ∀ ts, Dump.types (types ts) = Dump.types ts
  | [] => rfl
  | t :: ts => by rw [types, Dump.types, Dump.types, type_dump t, types_dump ts]

end

mutual

theorem expr_dump : ∀ e, Readable (Walk.expr e) → Dump.expr (expr e) = Dump.expr e
  | .nil _, _ | .bool .., _ | .string .., _ | .guid .., _ => rfl
  | .number k _ _, _ => by cases k <;> rfl
  | .object o, h => by
    rw [Walk.expr, readable_around] at h
    rw [expr, Dump.expr, Dump.expr, object_dump o h]
  | .vector _ _ items _ _, h => by
    rw [Walk.expr, readable_around] at h
    rw [expr, Dump.expr, Dump.expr, exprs_dump items h]; rfl
  | .list items _ _, h => by
    rw [Walk.expr, readable_around] at h
    rw [expr, Dump.expr, Dump.expr, exprs_dump items h]
  | .map _ pairs _, h => by
    rw [Walk.expr, readable_around] at h
    rw [expr, Dump.expr, Dump.expr, exprs_dump pairs h]
  | .pair a b _, h => by
    rw [Walk.expr, readable_around, readable_append] at h
    rw [expr, Dump.expr, Dump.expr, expr_dump a h.1, expr_dump b h.2]
  | .unary _ e _, h => by
    rw [Walk.expr, readable_around] at h
    rw [expr, Dump.expr, Dump.expr, expr_dump e h]
  | .binary _ a b _, h => by
    rw [Walk.expr, readable_around, readable_append] at h
    rw [expr, Dump.expr, Dump.expr, expr_dump a h.1, expr_dump b h.2]
  | .ternary c a b _, h => by
    rw [Walk.expr, readable_around, readable_append, readable_append] at h
    rw [expr, Dump.expr, Dump.expr, expr_dump c h.1, expr_dump a h.2.1, expr_dump b h.2.2]
  | .group inner _, h => by
    rw [Walk.expr, readable_around] at h
    rw [expr, Dump.expr, Dump.expr, expr?_dump inner h]
  | .generic _ index _, h => by
    rw [Walk.expr, readable_around] at h
    rw [expr, Dump.expr, Dump.expr, expr?_dump index h]; rfl
  | .reference x, h => by
    rw [Walk.expr, readable_around] at h
    rw [expr, Dump.expr, Dump.expr, reference_dump x h]
  | .assignment a, h => by
    rw [Walk.expr, readable_around] at h
    rw [expr, Dump.expr, Dump.expr, assignment_dump a h]
  | .visibility v, h => by
    rw [Walk.expr, readable_around] at h
    rw [expr, Dump.expr, Dump.expr, visibility_dump v h]
  | .error _, h => by
    rw [Walk.expr, readable_around, readable_cons] at h
    exact Bool.noConfusion h.1

theorem exprs_dump : ∀ es, Readable (Walk.exprs es) → Dump.exprs (exprs es) = Dump.exprs es
  | [], _ => rfl
  | e :: es, h => by
    rw [Walk.exprs, readable_append] at h
    rw [exprs, Dump.exprs, Dump.exprs, expr_dump e h.1, exprs_dump es h.2]

theorem expr?_dump : ∀ e, Readable (Walk.expr? e) → Dump.expr? (expr? e) = Dump.expr? e
  | none, _ => rfl
  | some e, h => by
    rw [Walk.expr?] at h
    rw [expr?, Dump.expr?, Dump.expr?, expr_dump e h]

theorem reference_dump : ∀ x, Readable (Walk.reference x) →
    Dump.reference (reference x) = Dump.reference x
  | ⟨_, segs, _⟩, h => by
    rw [Walk.reference, readable_cons] at h
    rw [reference, Dump.reference, Dump.reference, segments_dump segs h.2]

theorem segments_dump : ∀ xs, Readable (Walk.segments xs) →
    Dump.segments (segments xs) = Dump.segments xs
  | [], _ => rfl
  | .name .. :: xs, h => by
    rw [Walk.segments] at h
    rw [segments, Dump.segments, Dump.segments, segments_dump xs h]; rfl
  | .index e :: xs, h => by
    rw [Walk.segments, readable_append] at h
    rw [segments, segment, Dump.segments, Dump.segments, segments_dump xs h.2, Dump.segment,
      Dump.segment, expr_dump e h.1]

theorem assignment_dump : ∀ a, Readable (Walk.assignment a) →
    Dump.assignment (assignment a) = Dump.assignment a
  | ⟨_, value, _⟩, h => by
    rw [Walk.assignment, readable_cons] at h
    rw [assignment, Dump.assignment, Dump.assignment, expr_dump value h.2]; rfl

theorem declaration_dump : ∀ d, Readable (Walk.declaration d) →
    Dump.declaration (declaration d) = Dump.declaration d
  | .assignment a, h => by
    rw [Walk.declaration] at h
    rw [declaration, Dump.declaration, Dump.declaration, assignment_dump a h]
  | .template t, h => by
    rw [Walk.declaration] at h
    rw [declaration, Dump.declaration, Dump.declaration, template_dump t h]

theorem visibility_dump : ∀ v, Readable (Walk.visibility v) →
    Dump.visibility (visibility v) = Dump.visibility v
  | ⟨_, _, decl, _⟩, h => by
    rw [Walk.visibility, readable_cons] at h
    rw [visibility, Dump.visibility, Dump.visibility, declaration_dump decl h.2]

theorem template_dump : ∀ t, Readable (Walk.template t) →
    Dump.template (template t) = Dump.template t
  | ⟨_, params, body, _⟩, h => by
    rw [Walk.template, readable_cons, readable_append] at h
    rw [template, Dump.template, Dump.template, members_dump params h.2.1, object_dump body h.2.2]
    rfl

theorem member_dump : ∀ m, Readable (Walk.member m) → Dump.member (member m) = Dump.member m
  | ⟨_, none, value, _, _⟩, h => by
    rw [Walk.member, readable_cons] at h
    rw [member, Dump.member, Dump.member, expr?_dump value h.2]; rfl
  | ⟨_, some t, value, _, _⟩, h => by
    rw [Walk.member, readable_cons] at h
    rw [member, Dump.member, Dump.member, expr?_dump value h.2, Option.map_some,
      Option.toList_some, List.map_singleton, type_dump t]
    rfl

theorem members_dump : ∀ ms, Readable (Walk.members ms) →
    Dump.members (members ms) = Dump.members ms
  | [], _ => rfl
  | m :: ms, h => by
    rw [Walk.members, readable_append] at h
    rw [members, Dump.members, Dump.members, member_dump m h.1, members_dump ms h.2]

theorem entry_dump : ∀ e, Readable (Walk.entry e) → Dump.entry (entry e) = Dump.entry e
  | .member m, h => by
    rw [Walk.entry] at h
    rw [entry, Dump.entry, Dump.entry, member_dump m h]
  | .assignment a, h => by
    rw [Walk.entry] at h
    rw [entry, Dump.entry, Dump.entry, assignment_dump a h]
  | .visibility v, h => by
    rw [Walk.entry] at h
    rw [entry, Dump.entry, Dump.entry, visibility_dump v h]
  | .reference x, h => by
    rw [Walk.entry] at h
    rw [entry, Dump.entry, Dump.entry, reference_dump x h]
  | .error _, h => by
    rw [Walk.entry, readable_cons] at h
    exact Bool.noConfusion h.1

theorem entries_dump : ∀ es, Readable (Walk.entries es) →
    Dump.entries (entries es) = Dump.entries es
  | [], _ => rfl
  | e :: es, h => by
    rw [Walk.entries, readable_append] at h
    rw [entries, Dump.entries, Dump.entries, entry_dump e h.1, entries_dump es h.2]

theorem object_dump : ∀ o, Readable (Walk.object o) → Dump.object (object o) = Dump.object o
  | ⟨_, es, _⟩, h => by
    rw [Walk.object, readable_cons, readable_append] at h
    rw [object, Dump.object, Dump.object, entries_dump es h.2.1]; rfl

end

/-- Without fragments the dump of an item does not show places. -/
theorem item_dump (i : Item) (h : Readable (Walk.item i)) : Dump.item (item i) = Dump.item i := by
  rw [Walk.item, readable_cons, readable_append] at h
  replace h := h.2.1
  cases i with
  | assignment a => exact assignment_dump a h
  | visibility v => exact visibility_dump v h
  | template t => exact template_dump t h
  | unnamed u => exact congrArg (fun s => Sexp.tagged "unnamed" [s]) (object_dump u.object h)
  | member m => exact member_dump m h
  | expr e => exact expr_dump e h
  | error e => exact absurd (h _ (List.mem_singleton.2 rfl)) Bool.noConfusion

end Bare

/-- A document without places. -/
def Document.bare (d : Document) : Document := ⟨d.items.map Bare.item, .zero⟩

/-- **A document without unreadable fragments has the dump of its bare form.** -/
theorem Document.dump_bare {d : Document} (h : d.errorCount = 0) : d.bare.dump = d.dump := by
  have readable : ∀ i ∈ d.items, Bare.Readable (Walk.item i) := by
    intro i hi v hv
    rw [errorCount, List.countP_eq_zero] at h
    exact Bool.eq_false_iff.2 (h v (List.mem_flatMap.2 ⟨i, hi, hv⟩))
  unfold dump Dump.document bare
  rw [List.map_map]
  congr 2
  exact List.map_congr_left fun i hi => Bare.item_dump i (readable i hi)

end Ndf
