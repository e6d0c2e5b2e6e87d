/-
# Tree dumps

`SPEC_FULL.md` E6, the dump for structural comparison.

A tree as a symbolic expression: the kind of a node and its parts in parentheses, texts inline, no
spans.  Two sources with the same structure have the same dump, whatever their layout.

A tree is first turned into an `Sexp`, which says what stands in the dump, and then written out by
`Sexp.render`, which says how.
-/

import Ndf.Text.Quoted
import Ndf.Tree

namespace Ndf

/-- A symbolic expression. -/
inductive Sexp where
  | atom (text : String)
  | node (parts : List Sexp)

namespace Sexp

mutual

/-- Writes a symbolic expression: parts in parentheses, a space between two of them. -/
def render : Sexp → String
  | .atom text => text
  | .node parts => "(" ++ renderParts parts ++ ")"

/-- Writes parts with a space between two of them. -/
def renderParts : List Sexp → String
  | [] => ""
  | [part] => render part
  | part :: rest => render part ++ " " ++ renderParts rest

end

/-- A node of a kind with some parts. -/
def tagged (tag : String) (parts : List Sexp) : Sexp := .node (.atom tag :: parts)

/-- A node of a kind with a text. -/
def leaf (tag text : String) : Sexp := tagged tag [.atom text]

end Sexp

namespace Dump

open Sexp (tagged leaf)

/-- An unreadable fragment. -/
def error (e : ErrorNode) : Sexp := leaf "ERROR" (Text.quoted e.text)

/-- The word for a scope. -/
def scope : Scope → List Sexp
  | .none => []
  | .current => [.atom "current"]
  | .root => [.atom "root"]
  | .global => [.atom "global"]

/-- The word for a kind of segment. -/
def segmentKind : SegmentKind → String
  | .terminal => "terminal"
  | .nested => "nested"
  | .member => "member"

/-- The commas to spare, if any. -/
def strayCommas (n : Nat) : List Sexp :=
  if n = 0 then [] else [leaf "stray_commas" (toString n)]

mutual

/-- A type. -/
def type : TypeRef → Sexp
  | ⟨name, _, params, _⟩ => tagged "type" (.atom name.text :: types params)

/-- Types in order. -/
def types : List TypeRef → List Sexp
  | [] => []
  | t :: rest => type t :: types rest

end

mutual

/-- An expression. -/
def expr : Expr → Sexp
  | .nil _ => .node [.atom "nil"]
  | .bool value _ => leaf "bool" (if value then "true" else "false")
  | .number kind text span => leaf (Expr.typeName (.number kind text span)) text
  | .string quote raw _ => leaf "string" (String.ofList (quote.char :: raw.toList ++ [quote.char]))
  | .object o => object o
  | .vector name _ items stray _ =>
    tagged "vector_type" (leaf "name" name.text :: (exprs items ++ strayCommas stray))
  | .list items stray _ => tagged "list" (exprs items ++ strayCommas stray)
  | .map _ pairs _ => tagged "map" (exprs pairs)
  | .pair left right _ => tagged "pair" [expr left, expr right]
  | .unary op operand _ => tagged "unary_expression" [.atom op.sign, expr operand]
  | .binary op left right _ =>
    tagged "binary_expression" [expr left, .atom op.sign, expr right]
  | .ternary condition yes no _ => tagged "ternary" [expr condition, expr yes, expr no]
  | .group inner _ => tagged "group" (expr? inner)
  | .generic name index _ => tagged "generic" (leaf "name" name.text :: expr? index)
  | .guid raw _ => leaf "guid" ("\x7b" ++ raw ++ "\x7d")
  | .reference r => reference r
  | .assignment a => assignment a
  | .visibility v => visibility v
  | .error e => error e

/-- Expressions in order. -/
def exprs : List Expr → List Sexp
  | [] => []
  | e :: rest => expr e :: exprs rest

/-- An expression that may be missing. -/
def expr? : Option Expr → List Sexp
  | none => []
  | some e => [expr e]

/-- A reference. -/
def reference : Reference → Sexp
  | ⟨s, segs, _⟩ => tagged "reference" (scope s ++ segments segs)

/-- The steps of a reference. -/
def segments : List Segment → List Sexp
  | [] => []
  | s :: rest => segment s :: segments rest

/-- A step of a reference. -/
def segment : Segment → Sexp
  | .name name kind => leaf (segmentKind kind) name.text
  | .index index => tagged "index" [expr index]

/-- An assignment. -/
def assignment : Assignment → Sexp
  | ⟨name, value, _⟩ => tagged "assignment" [leaf "name" name.text, expr value]

/-- A declaration. -/
def declaration : Declaration → Sexp
  | .assignment a => assignment a
  | .template t => template t

/-- A declaration behind a modifier. -/
def visibility : Visibility → Sexp
  | ⟨modifier, _, decl, _⟩ => tagged "visibility" [.atom modifier.spelling, declaration decl]

/-- A template. -/
def template : Template → Sexp
  | ⟨name, params, body, _⟩ =>
    tagged "template" [leaf "name" name.text, tagged "params" (members params), object body]

/-- A member. -/
def member : Member → Sexp
  | ⟨name, type?, value, legacy, _⟩ =>
    tagged "member" (leaf "name" name.text :: (type?.toList.map type ++
      ((if legacy then [.atom "legacy"] else []) ++ expr? value)))

/-- Members in order. -/
def members : List Member → List Sexp
  | [] => []
  | m :: rest => member m :: members rest

/-- An entry of an object. -/
def entry : Entry → Sexp
  | .member m => member m
  | .assignment a => assignment a
  | .visibility v => visibility v
  | .reference r => reference r
  | .error e => error e

/-- Entries in order. -/
def entries : List Entry → List Sexp
  | [] => []
  | e :: rest => entry e :: entries rest

/-- An object. -/
def object : Object → Sexp
  | ⟨typeName, es, _⟩ => tagged "object" (leaf "type_name" typeName.text :: entries es)

end

/-- An item. -/
def item : Item → Sexp
  | .assignment a => assignment a
  | .visibility v => visibility v
  | .template t => template t
  | .unnamed u => tagged "unnamed" [object u.object]
  | .member m => member m
  | .expr e => expr e
  | .error e => error e

/-- A document. -/
def document (d : Document) : Sexp := tagged "source_file" (d.items.map item)

end Dump

/-- The dump of a document. -/
def Document.dump (d : Document) : String := (Dump.document d).render

/-- The dump of an expression. -/
def Expr.dump (e : Expr) : String := (Dump.expr e).render

end Ndf
