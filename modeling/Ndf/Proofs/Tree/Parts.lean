/-
# The parts of a tree

A `Part` is a piece of a tree with what it is: a name, a type, an expression, an entry, an item and
so on.  `Parts` lists a piece and all pieces below it in the order of the syntax, names and
fragments included, so a fact about every node of a document is one about all of `Document.parts`.
What stands in several roles is a part in each of them: an object as an expression is a part as an
expression and one as an object.
-/

import Ndf.Tree

namespace Ndf

/-- A piece of a tree. -/
inductive Part where
  | name (name : Name)
  | type (type : TypeRef)
  | expr (expr : Expr)
  | reference (reference : Reference)
  | assignment (assignment : Assignment)
  | visibility (visibility : Visibility)
  | template (template : Template)
  | member (member : Member)
  | entry (entry : Entry)
  | object (object : Object)
  | unnamed (unnamed : Unnamed)
  | item (item : Item)
  | error (error : ErrorNode)

namespace Parts

mutual

/-- A type, its name and its parameters. -/
def type : TypeRef → List Part
  | ⟨n, wordClass, params, s⟩ => .type ⟨n, wordClass, params, s⟩ :: .name n :: types params

def types : List TypeRef → List Part
  | [] => []
  | t :: rest => type t ++ types rest

end

mutual

/-- An expression and all below it. -/
def expr : Expr → List Part
  | .nil s => [.expr (.nil s)]
  | .bool b s => [.expr (.bool b s)]
  | .number k t s => [.expr (.number k t s)]
  | .string q r s => [.expr (.string q r s)]
  | .object o => .expr (.object o) :: object o
  | .vector n b items c s => .expr (.vector n b items c s) :: .name n :: exprs items
  | .list items c s => .expr (.list items c s) :: exprs items
  | .map n pairs s => .expr (.map n pairs s) :: .name n :: exprs pairs
  | .pair l r s => .expr (.pair l r s) :: (expr l ++ expr r)
  | .unary op e s => .expr (.unary op e s) :: expr e
  | .binary op l r s => .expr (.binary op l r s) :: (expr l ++ expr r)
  | .ternary c y n s => .expr (.ternary c y n s) :: (expr c ++ (expr y ++ expr n))
  | .group inner s => .expr (.group inner s) :: expr? inner
  | .generic n index s => .expr (.generic n index s) :: .name n :: expr? index
  | .guid r s => [.expr (.guid r s)]
  | .reference r => .expr (.reference r) :: reference r
  | .assignment a => .expr (.assignment a) :: assignment a
  | .visibility v => .expr (.visibility v) :: visibility v
  | .error e => [.expr (.error e), .error e]

def exprs : List Expr → List Part
  | [] => []
  | e :: rest => expr e ++ exprs rest

def expr? : Option Expr → List Part
  | none => []
  | some e => expr e

/-- A reference, its names and its indexes. -/
def reference : Reference → List Part
  | ⟨scope, segs, s⟩ => .reference ⟨scope, segs, s⟩ :: segments segs

def segments : List Segment → List Part
  | [] => []
  | .name n _ :: rest => .name n :: segments rest
  | .index e :: rest => expr e ++ segments rest

/-- An assignment, its name and its value. -/
def assignment : Assignment → List Part
  | ⟨n, value, s⟩ => .assignment ⟨n, value, s⟩ :: .name n :: expr value

def declaration : Declaration → List Part
  | .assignment a => assignment a
  | .template t => template t

/-- A declaration behind a modifier, with the modifier. -/
def visibility : Visibility → List Part
  | ⟨modifier, keyword, decl, s⟩ =>
    .visibility ⟨modifier, keyword, decl, s⟩ :: .name keyword :: declaration decl

/-- A template, its name, its parameters and its body. -/
def template : Template → List Part
  | ⟨n, params, body, s⟩ =>
    .template ⟨n, params, body, s⟩ :: .name n :: (members params ++ object body)

/-- A member, its name, its type and its value. -/
def member : Member → List Part
  | ⟨n, type?, value, legacy, s⟩ =>
    .member ⟨n, type?, value, legacy, s⟩ :: .name n ::
      (types type?.toList ++ expr? value)

def members : List Member → List Part
  | [] => []
  | m :: rest => member m ++ members rest

/-- An entry of an object and what it is. -/
def entry : Entry → List Part
  | .member m => .entry (.member m) :: member m
  | .assignment a => .entry (.assignment a) :: assignment a
  | .visibility v => .entry (.visibility v) :: visibility v
  | .reference r => .entry (.reference r) :: reference r
  | .error e => [.entry (.error e), .error e]

def entries : List Entry → List Part
  | [] => []
  | e :: rest => entry e ++ entries rest

/-- An object, the name of its type and its entries. -/
def object : Object → List Part
  | ⟨typeName, es, s⟩ => .object ⟨typeName, es, s⟩ :: .name typeName :: entries es

end

/-- What an item is made of. -/
def inItem : Item → List Part
  | .assignment a => assignment a
  | .visibility v => visibility v
  | .template t => template t
  | .unnamed u => .unnamed u :: object u.object
  | .member m => member m
  | .expr e => expr e
  | .error e => [.error e]

/-- An item and what it is made of. -/
def item (i : Item) : List Part := .item i :: inItem i

/-- An expression is a part of itself. -/
theorem mem_expr (e : Expr) : .expr e ∈ expr e := by
  cases e <;> exact List.mem_cons_self ..

theorem types_eq_flatMap (ts : List TypeRef) : types ts = ts.flatMap type := by
  induction ts with
  | nil => rfl
  | cons t ts ih => rw [types, ih, List.flatMap_cons]

theorem exprs_eq_flatMap (es : List Expr) : exprs es = es.flatMap expr := by
  induction es with
  | nil => rfl
  | cons e es ih => rw [exprs, ih, List.flatMap_cons]

theorem expr?_eq_flatMap (e : Option Expr) : expr? e = e.toList.flatMap expr := by
  cases e <;> simp [expr?]

theorem members_eq_flatMap (ms : List Member) : members ms = ms.flatMap member := by
  induction ms with
  | nil => rfl
  | cons m ms ih => rw [members, ih, List.flatMap_cons]

theorem entries_eq_flatMap (es : List Entry) : entries es = es.flatMap entry := by
  induction es with
  | nil => rfl
  | cons e es ih => rw [entries, ih, List.flatMap_cons]

end Parts

/-- All parts of a document, at any depth. -/
def Document.parts (d : Document) : List Part := d.items.flatMap Parts.item

end Ndf
