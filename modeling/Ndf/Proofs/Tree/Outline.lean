/-
# Trees of spans

What a tree says about where its parts stand.  A `Node` is a span with the nodes below it, in the
order in which they are written: the name, the type and the value of a member, the condition of
`?:` before its two branches, the names and index expressions of a reference.  Expressions, entries
and items that only wrap another part are no nodes of their own, since they stand where it stands.
-/

import Ndf.Tree

namespace Ndf

/-- A place in a tree and the places below it. -/
structure Node where
  /-- Types alone may end in the middle of a token. -/
  isType : Bool
  span : Span
  /-- The nodes right below, in the order of the syntax. -/
  parts : List Node

namespace Node

mutual

/-- A node and all nodes below it. -/
def all : Node → List Node
  | ⟨isType, span, parts⟩ => ⟨isType, span, parts⟩ :: allOf parts

/-- Some nodes and all nodes below them. -/
def allOf : List Node → List Node
  | [] => []
  | n :: rest => all n ++ allOf rest

end

/-- The nodes below a row, node by node. -/
theorem allOf_eq_flatMap (ns : List Node) : allOf ns = ns.flatMap all := by
  induction ns with
  | nil => rfl
  | cons n ns ih => rw [allOf, ih, List.flatMap_cons]

/-- A node without parts. -/
def leaf (s : Span) : Node := ⟨false, s, []⟩

@[simp] theorem span_leaf (s : Span) : (leaf s).span = s := rfl

@[simp] theorem parts_leaf (s : Span) : (leaf s).parts = [] := rfl

end Node

namespace Outline

open Node (leaf)

/-- A name has no parts. -/
def name (n : Name) : Node := leaf n.span

mutual

/-- A type: its name and its parameters. -/
def type : TypeRef → Node
  | ⟨n, _, params, s⟩ => ⟨true, s, name n :: types params⟩

def types : List TypeRef → List Node
  | [] => []
  | t :: rest => type t :: types rest

end

mutual

/-- An expression. -/
def expr : Expr → Node
  | .nil s | .bool _ s | .number _ _ s | .string _ _ s | .guid _ s => leaf s
  | .object o => object o
  | .vector n _ items _ s => ⟨false, s, name n :: exprs items⟩
  | .list items _ s => ⟨false, s, exprs items⟩
  | .map n pairs s => ⟨false, s, name n :: exprs pairs⟩
  | .pair left right s => ⟨false, s, [expr left, expr right]⟩
  | .unary _ operand s => ⟨false, s, [expr operand]⟩
  | .binary _ left right s => ⟨false, s, [expr left, expr right]⟩
  | .ternary condition yes no s => ⟨false, s, [expr condition, expr yes, expr no]⟩
  | .group inner s => ⟨false, s, expr? inner⟩
  | .generic n index s => ⟨false, s, name n :: expr? index⟩
  | .reference r => reference r
  | .assignment a => assignment a
  | .visibility v => visibility v
  | .error e => leaf e.span

def exprs : List Expr → List Node
  | [] => []
  | e :: rest => expr e :: exprs rest

def expr? : Option Expr → List Node
  | none => []
  | some e => [expr e]

/-- A reference: its names and its index expressions. -/
def reference : Reference → Node
  | ⟨_, segs, s⟩ => ⟨false, s, segments segs⟩

def segments : List Segment → List Node
  | [] => []
  | .name n _ :: rest => name n :: segments rest
  | .index e :: rest => expr e :: segments rest

/-- An assignment: its name and its value. -/
def assignment : Assignment → Node
  | ⟨n, value, s⟩ => ⟨false, s, [name n, expr value]⟩

def declaration : Declaration → Node
  | .assignment a => assignment a
  | .template t => template t

/-- A declaration behind a modifier: the modifier and the declaration. -/
def visibility : Visibility → Node
  | ⟨_, keyword, decl, s⟩ => ⟨false, s, [name keyword, declaration decl]⟩

/-- A template: its name, its parameters and its body. -/
def template : Template → Node
  | ⟨n, params, body, s⟩ => ⟨false, s, name n :: (members params ++ [object body])⟩

/-- A member: its name, its type and its value. -/
def member : Member → Node
  | ⟨n, type?, value, _, s⟩ => ⟨false, s, name n :: (type?.toList.map type ++ expr? value)⟩

def members : List Member → List Node
  | [] => []
  | m :: rest => member m :: members rest

/-- An entry of an object. -/
def entry : Entry → Node
  | .member m => member m
  | .assignment a => assignment a
  | .visibility v => visibility v
  | .reference r => reference r
  | .error e => leaf e.span

def entries : List Entry → List Node
  | [] => []
  | e :: rest => entry e :: entries rest

/-- An object: the name of its type and its entries. -/
def object : Object → Node
  | ⟨typeName, es, s⟩ => ⟨false, s, name typeName :: entries es⟩

end

/-- An unnamed object lies over its object. -/
def unnamed (u : Unnamed) : Node := ⟨false, u.span, [object u.object]⟩

/-- An item. -/
def item : Item → Node
  | .assignment a => assignment a
  | .visibility v => visibility v
  | .template t => template t
  | .unnamed u => unnamed u
  | .member m => member m
  | .expr e => expr e
  | .error e => leaf e.span

theorem types_eq_map (ts : List TypeRef) : types ts = ts.map type := by
  induction ts with
  | nil => rfl
  | cons t ts ih => rw [types, ih, List.map_cons]

theorem exprs_eq_map (es : List Expr) : exprs es = es.map expr := by
  induction es with
  | nil => rfl
  | cons e es ih => rw [exprs, ih, List.map_cons]

theorem members_eq_map (ms : List Member) : members ms = ms.map member := by
  induction ms with
  | nil => rfl
  | cons m ms ih => rw [members, ih, List.map_cons]

theorem entries_eq_map (es : List Entry) : entries es = es.map entry := by
  induction es with
  | nil => rfl
  | cons e es ih => rw [entries, ih, List.map_cons]

/-! ### Where a node stands

A node has the span of what it is the node of, and no expression is a type. -/

theorem span_assignment (a : Assignment) : (assignment a).span = a.span := by
  cases a; rfl

theorem span_visibility (v : Visibility) : (visibility v).span = v.span := by
  cases v; rfl

theorem span_template (t : Template) : (template t).span = t.span := by
  cases t; rfl

theorem span_member (m : Member) : (member m).span = m.span := by
  cases m; rfl

theorem span_reference (r : Reference) : (reference r).span = r.span := by
  cases r; rfl

theorem span_object (o : Object) : (object o).span = o.span := by
  cases o; rfl

theorem span_type (t : TypeRef) : (type t).span = t.span := by
  cases t; rfl

/-- The node of an expression has its span. -/
theorem span_expr (e : Expr) : (expr e).span = e.span := by
  cases e with
  | object o => exact span_object o
  | reference r => exact span_reference r
  | assignment a => exact span_assignment a
  | visibility v => exact span_visibility v
  | _ => rfl

/-- So has that of an item. -/
theorem span_item (i : Item) : (item i).span = i.span := by
  cases i with
  | assignment a => exact span_assignment a
  | visibility v => exact span_visibility v
  | template t => exact span_template t
  | member m => exact span_member m
  | expr e => exact span_expr e
  | _ => rfl

/-- No expression is a type. -/
theorem isType_expr (e : Expr) : (expr e).isType = false := by
  cases e with
  | object o => cases o; rfl
  | reference r => cases r; rfl
  | assignment a => cases a; rfl
  | visibility v => cases v; rfl
  | _ => rfl

end Outline

/-- All nodes of a document, at any depth. -/
def Document.nodes (d : Document) : List Node := Node.allOf (d.items.map Outline.item)

end Ndf
