/-
# Trees with other spans

Some facts about a tree are facts about another one of the same structure: a source that is moved
has the spans of its tree moved, and a source that is laid out anew has other spans and no stray
commas.  A `Relabel` says what becomes of spans and of counts of stray commas; applied to a tree it
keeps everything else.  Relabelling with the identity changes nothing (`expr_id`).
-/

import Ndf.Tree

namespace Ndf

/-- What becomes of the spans and of the stray commas of a tree. -/
structure Relabel where
  span : Span → Span
  strays : Nat → Nat

namespace Relabel

variable (r : Relabel)

def name (n : Name) : Name := ⟨n.text, r.span n.span⟩

def errorNode (e : ErrorNode) : ErrorNode := ⟨r.span e.span, e.text⟩

mutual

def type : TypeRef → TypeRef
  | ⟨name, wordClass, params, span⟩ => ⟨r.name name, wordClass, types params, r.span span⟩

def types : List TypeRef → List TypeRef
  | [] => []
  | t :: rest => type t :: types rest

end

mutual

/-- An expression with other spans. -/
def expr : Expr → Expr
  | .nil s => .nil (r.span s)
  | .bool b s => .bool b (r.span s)
  | .number k t s => .number k t (r.span s)
  | .string q t s => .string q t (r.span s)
  | .object o => .object (object o)
  | .vector n b items c s => .vector (r.name n) b (exprs items) (r.strays c) (r.span s)
  | .list items c s => .list (exprs items) (r.strays c) (r.span s)
  | .map n pairs s => .map (r.name n) (exprs pairs) (r.span s)
  | .pair a b s => .pair (expr a) (expr b) (r.span s)
  | .unary op e s => .unary op (expr e) (r.span s)
  | .binary op a b s => .binary op (expr a) (expr b) (r.span s)
  | .ternary c a b s => .ternary (expr c) (expr a) (expr b) (r.span s)
  | .group inner s => .group (expr? inner) (r.span s)
  | .generic n index s => .generic (r.name n) (expr? index) (r.span s)
  | .guid t s => .guid t (r.span s)
  | .reference x => .reference (reference x)
  | .assignment a => .assignment (assignment a)
  | .visibility v => .visibility (visibility v)
  | .error e => .error (r.errorNode e)

def exprs : List Expr → List Expr
  | [] => []
  | e :: rest => expr e :: exprs rest

def expr? : Option Expr → Option Expr
  | none => none
  | some e => some (expr e)

def reference : Reference → Reference
  | ⟨scope, segs, s⟩ => ⟨scope, segments segs, r.span s⟩

def segment : Segment → Segment
  | .name n kind => .name (r.name n) kind
  | .index e => .index (expr e)

def segments : List Segment → List Segment
  | [] => []
  | x :: rest => segment x :: segments rest

def assignment : Assignment → Assignment
  | ⟨n, value, s⟩ => ⟨r.name n, expr value, r.span s⟩

def declaration : Declaration → Declaration
  | .assignment a => .assignment (assignment a)
  | .template t => .template (template t)

def visibility : Visibility → Visibility
  | ⟨modifier, keyword, decl, s⟩ => ⟨modifier, r.name keyword, declaration decl, r.span s⟩

def template : Template → Template
  | ⟨n, params, body, s⟩ => ⟨r.name n, members params, object body, r.span s⟩

def member : Member → Member
  | ⟨n, type?, value, legacyColon, s⟩ =>
    ⟨r.name n, type?.map r.type, expr? value, legacyColon, r.span s⟩

def members : List Member → List Member
  | [] => []
  | m :: rest => member m :: members rest

def entry : Entry → Entry
  | .member m => .member (member m)
  | .assignment a => .assignment (assignment a)
  | .visibility v => .visibility (visibility v)
  | .reference x => .reference (reference x)
  | .error e => .error (r.errorNode e)

def entries : List Entry → List Entry
  | [] => []
  | e :: rest => entry e :: entries rest

def object : Object → Object
  | ⟨n, es, s⟩ => ⟨r.name n, entries es, r.span s⟩

end

def unnamed (u : Unnamed) : Unnamed := ⟨r.object u.object, r.span u.span⟩

/-- An item with other spans. -/
def item : Item → Item
  | .assignment a => .assignment (r.assignment a)
  | .visibility v => .visibility (r.visibility v)
  | .template t => .template (r.template t)
  | .unnamed u => .unnamed (r.unnamed u)
  | .member m => .member (r.member m)
  | .expr e => .expr (r.expr e)
  | .error e => .error (r.errorNode e)

@[simp] theorem types_eq_map (ts : List TypeRef) : r.types ts = ts.map r.type := by
  induction ts with
  | nil => rfl
  | cons t ts ih => rw [types, ih, List.map_cons]

@[simp] theorem exprs_eq_map (es : List Expr) : r.exprs es = es.map r.expr := by
  induction es with
  | nil => rfl
  | cons e es ih => rw [exprs, ih, List.map_cons]

@[simp] theorem expr?_eq_map (e : Option Expr) : r.expr? e = e.map r.expr := by
  cases e <;> rfl

@[simp] theorem segments_eq_map (xs : List Segment) : r.segments xs = xs.map r.segment := by
  induction xs with
  | nil => rfl
  | cons x xs ih => rw [segments, ih, List.map_cons]

@[simp] theorem members_eq_map (ms : List Member) : r.members ms = ms.map r.member := by
  induction ms with
  | nil => rfl
  | cons m ms ih => rw [members, ih, List.map_cons]

@[simp] theorem entries_eq_map (es : List Entry) : r.entries es = es.map r.entry := by
  induction es with
  | nil => rfl
  | cons e es ih => rw [entries, ih, List.map_cons]

@[simp] theorem typeName_expr (e : Expr) : (r.expr e).typeName = e.typeName := by
  cases e with
  | number kind => cases kind <;> rfl
  | _ => rfl

/-- A fragment stays one. -/
theorem isError_item (i : Item) : (r.item i).isError = i.isError := by
  cases i <;> rfl

/-- An expression has a new span. -/
theorem span_expr (e : Expr) : (r.expr e).span = r.span e.span := by
  cases e with
  | object o => cases o; rfl
  | reference x => cases x; rfl
  | assignment a => cases a; rfl
  | visibility v => cases v; rfl
  | _ => rfl

/-- So has an item. -/
theorem span_item (i : Item) : (r.item i).span = r.span i.span := by
  cases i with
  | assignment a => cases a; rfl
  | visibility v => cases v; rfl
  | template t => cases t; rfl
  | member m => cases m; rfl
  | expr e => exact r.span_expr e
  | _ => rfl

/-- The relabelling that keeps everything. -/
protected def id : Relabel := ⟨fun s => s, fun n => n⟩

mutual

theorem type_id : ∀ t, Relabel.id.type t = t
  | ⟨n, c, params, s⟩ => by rw [type, types_id params]; rfl

theorem types_id : ∀ ts, Relabel.id.types ts = ts
  | [] => rfl
  | t :: ts => by rw [types, type_id t, types_id ts]

end

mutual

theorem expr_id : ∀ e, Relabel.id.expr e = e
  | .nil _ | .bool .. | .number .. | .string .. | .guid .. | .error _ => rfl
  | .object o => by rw [expr, object_id o]
  | .vector _ _ items _ _ => by rw [expr, exprs_id items]; rfl
  | .list items _ _ => by rw [expr, exprs_id items]; rfl
  | .map _ pairs _ => by rw [expr, exprs_id pairs]; rfl
  | .pair a b _ => by rw [expr, expr_id a, expr_id b]; rfl
  | .unary _ e _ => by rw [expr, expr_id e]; rfl
  | .binary _ a b _ => by rw [expr, expr_id a, expr_id b]; rfl
  | .ternary c a b _ => by rw [expr, expr_id c, expr_id a, expr_id b]; rfl
  | .group inner _ => by rw [expr, expr?_id inner]; rfl
  | .generic _ index _ => by rw [expr, expr?_id index]; rfl
  | .reference x => by rw [expr, reference_id x]
  | .assignment a => by rw [expr, assignment_id a]
  | .visibility v => by rw [expr, visibility_id v]

theorem exprs_id : ∀ es, Relabel.id.exprs es = es
  | [] => rfl
  | e :: es => by rw [exprs, expr_id e, exprs_id es]

theorem expr?_id : ∀ e, Relabel.id.expr? e = e
  | none => rfl
  | some e => by rw [expr?, expr_id e]

theorem reference_id : ∀ x, Relabel.id.reference x = x
  | ⟨_, segs, _⟩ => by rw [reference, segments_id segs]; rfl

theorem segment_id : ∀ x, Relabel.id.segment x = x
  | .name .. => rfl
  | .index e => by rw [segment, expr_id e]

theorem segments_id : ∀ xs, Relabel.id.segments xs = xs
  | [] => rfl
  | x :: xs => by rw [segments, segment_id x, segments_id xs]

theorem assignment_id : ∀ a, Relabel.id.assignment a = a
  | ⟨_, value, _⟩ => by rw [assignment, expr_id value]; rfl

theorem declaration_id : ∀ d, Relabel.id.declaration d = d
  | .assignment a => by rw [declaration, assignment_id a]
  | .template t => by rw [declaration, template_id t]

theorem visibility_id : ∀ v, Relabel.id.visibility v = v
  | ⟨_, _, decl, _⟩ => by rw [visibility, declaration_id decl]; rfl

theorem template_id : ∀ t, Relabel.id.template t = t
  | ⟨_, params, body, _⟩ => by rw [template, members_id params, object_id body]; rfl

theorem member_id : ∀ m, Relabel.id.member m = m
  | ⟨_, none, value, _, _⟩ => by rw [member, expr?_id value]; rfl
  | ⟨_, some t, value, _, _⟩ => by rw [member, expr?_id value, Option.map_some, type_id t]; rfl

theorem members_id : ∀ ms, Relabel.id.members ms = ms
  | [] => rfl
  | m :: ms => by rw [members, member_id m, members_id ms]

theorem entry_id : ∀ e, Relabel.id.entry e = e
  | .member m => by rw [entry, member_id m]
  | .assignment a => by rw [entry, assignment_id a]
  | .visibility v => by rw [entry, visibility_id v]
  | .reference x => by rw [entry, reference_id x]
  | .error _ => rfl

theorem entries_id : ∀ es, Relabel.id.entries es = es
  | [] => rfl
  | e :: es => by rw [entries, entry_id e, entries_id es]

theorem object_id : ∀ o, Relabel.id.object o = o
  | ⟨_, es, _⟩ => by rw [object, entries_id es]; rfl

end

/-- Relabelling with the identity changes nothing. -/
theorem item_id : ∀ i, Relabel.id.item i = i
  | .assignment a => by rw [item, assignment_id a]
  | .visibility v => by rw [item, visibility_id v]
  | .template t => by rw [item, template_id t]
  | .unnamed ⟨o, _⟩ => by rw [item, unnamed, object_id o]; rfl
  | .member m => by rw [item, member_id m]
  | .expr e => by rw [item, expr_id e]
  | .error _ => rfl

end Relabel

end Ndf
