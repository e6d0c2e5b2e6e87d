/-
# Walking a tree

`SPEC_FULL.md` E6, the visitor and the collectors.

`Document.visits` lists what a walk over a document meets, in source order and depth first.  Items,
expressions and objects are entered and left again; everything else is met once, before its parts.
Whatever is collected from a tree is picked out of this list.
-/

import Ndf.Tree

namespace Ndf

/-- What a walk meets. -/
inductive Visit where
  | enterItem (item : Item)
  | leaveItem (item : Item)
  | enterExpr (expr : Expr)
  | leaveExpr (expr : Expr)
  | assignment (assignment : Assignment)
  | visibility (visibility : Visibility)
  | template (template : Template)
  | enterObject (object : Object)
  | leaveObject (object : Object)
  | member (member : Member)
  | reference (reference : Reference)
  | error (error : ErrorNode)

namespace Walk

mutual

/-- Walks an expression. -/
def expr : Expr → List Visit
  | .nil s => around (.nil s) []
  | .bool b s => around (.bool b s) []
  | .number k t s => around (.number k t s) []
  | .string q r s => around (.string q r s) []
  | .object o => around (.object o) (object o)
  | .vector n b items c s => around (.vector n b items c s) (exprs items)
  | .list items c s => around (.list items c s) (exprs items)
  | .map n pairs s => around (.map n pairs s) (exprs pairs)
  | .pair l r s => around (.pair l r s) (expr l ++ expr r)
  | .unary op e s => around (.unary op e s) (expr e)
  | .binary op l r s => around (.binary op l r s) (expr l ++ expr r)
  | .ternary c y n s => around (.ternary c y n s) (expr c ++ (expr y ++ expr n))
  | .group inner s => around (.group inner s) (expr? inner)
  | .generic n index s => around (.generic n index s) (expr? index)
  | .guid r s => around (.guid r s) []
  | .reference r => around (.reference r) (reference r)
  | .assignment a => around (.assignment a) (assignment a)
  | .visibility v => around (.visibility v) (visibility v)
  | .error e => around (.error e) [.error e]
where
  /-- What is met in an expression, between entering and leaving it. -/
  around (e : Expr) (inside : List Visit) : List Visit :=
    .enterExpr e :: (inside ++ [.leaveExpr e])

/-- Walks expressions in order. -/
def exprs : List Expr → List Visit
  | [] => []
  | e :: rest => expr e ++ exprs rest

/-- Walks an expression that may be missing. -/
def expr? : Option Expr → List Visit
  | none => []
  | some e => expr e

/-- Walks a reference. -/
def reference : Reference → List Visit
  | ⟨scope, segs, s⟩ => .reference ⟨scope, segs, s⟩ :: segments segs

/-- Walks the indexes of a reference. -/
def segments : List Segment → List Visit
  | [] => []
  | .name .. :: rest => segments rest
  | .index e :: rest => expr e ++ segments rest

/-- Walks an assignment. -/
def assignment : Assignment → List Visit
  | ⟨name, value, s⟩ => .assignment ⟨name, value, s⟩ :: expr value

/-- Walks a declaration. -/
def declaration : Declaration → List Visit
  | .assignment a => assignment a
  | .template t => template t

/-- Walks a declaration behind its modifier. -/
def visibility : Visibility → List Visit
  | ⟨modifier, keyword, decl, s⟩ =>
    .visibility ⟨modifier, keyword, decl, s⟩ :: declaration decl

/-- Walks a template: its parameters, then its body. -/
def template : Template → List Visit
  | ⟨name, params, body, s⟩ =>
    .template ⟨name, params, body, s⟩ :: (members params ++ object body)

/-- Walks a member. -/
def member : Member → List Visit
  | ⟨name, type, value, legacy, s⟩ => .member ⟨name, type, value, legacy, s⟩ :: expr? value

/-- Walks members in order. -/
def members : List Member → List Visit
  | [] => []
  | m :: rest => member m ++ members rest

/-- Walks an entry of an object. -/
def entry : Entry → List Visit
  | .member m => member m
  | .assignment a => assignment a
  | .visibility v => visibility v
  | .reference r => reference r
  | .error e => [.error e]

/-- Walks entries in order. -/
def entries : List Entry → List Visit
  | [] => []
  | e :: rest => entry e ++ entries rest

/-- Walks an object. -/
def object : Object → List Visit
  | ⟨typeName, es, s⟩ =>
    .enterObject ⟨typeName, es, s⟩ :: (entries es ++ [.leaveObject ⟨typeName, es, s⟩])

end

/-- Walks what an item is made of. -/
def inItem : Item → List Visit
  | .assignment a => assignment a
  | .visibility v => visibility v
  | .template t => template t
  | .unnamed u => object u.object
  | .member m => member m
  | .expr e => expr e
  | .error e => [.error e]

/-- Walks an item. -/
def item (i : Item) : List Visit := .enterItem i :: (inItem i ++ [.leaveItem i])

end Walk

namespace Visit

/-- The reference that is met. -/
def reference? : Visit → Option Reference
  | .reference r => some r
  | _ => none

/-- The name that is declared by what is met. -/
def declared? : Visit → Option Name
  | .assignment a => some a.name
  | .template t => some t.name
  | _ => none

/-- The object that is entered. -/
def object? : Visit → Option Object
  | .enterObject o => some o
  | _ => none

/-- Whether an unreadable fragment is met. -/
def isError : Visit → Bool
  | .error _ => true
  | _ => false

end Visit

namespace Document

/-- What a walk over a document meets. -/
def visits (d : Document) : List Visit := d.items.flatMap Walk.item

/-- All references of a document, those in the indexes of others included. -/
def references (d : Document) : List Reference := d.visits.filterMap Visit.reference?

/-- The names that assignments and templates bind, at any depth. -/
def declarations (d : Document) : List Name := d.visits.filterMap Visit.declared?

/-- All objects of a document. -/
def objects (d : Document) : List Object := d.visits.filterMap Visit.object?

/-- The number of unreadable fragments. -/
def errorCount (d : Document) : Nat := d.visits.countP Visit.isError

end Document

end Ndf
