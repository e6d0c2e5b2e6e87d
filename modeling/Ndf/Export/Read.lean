/-
# Reading an export

The inverse of `Ndf.Export.Write`, lenient as `Ndf.MessagePack.Record` says.  Records and arrays may
be nested `maxLevels` deep; a variant adds no level.  `Readers` holds a reader for each kind of node
where a number of levels is left, and every function here builds a reader one level above some
`Readers`: it opens one record or array and reads what is inside with these.
-/

import Ndf.Export.Shape
import Ndf.MessagePack.Record

namespace Ndf
namespace Export

open MessagePack (Value fits readArray readBool readNat readOption readRecord readText readUnit
  readVariant)

/-- The number of levels that records and arrays can be nested. -/
def maxLevels : Nat := 1023

/-- The readers where a number of levels is left. -/
structure Readers where
  /-- Whether something unknown can be passed over. -/
  skip : Value → Bool
  span : Value → Option Span
  name : Value → Option Name
  type : Value → Option TypeRef
  types : Value → Option (List TypeRef)
  vectorType : Value → Option (Name × Option VectorType)
  expr : Value → Option Expr
  exprs : Value → Option (List Expr)
  segment : Value → Option Segment
  segments : Value → Option (List Segment)
  declaration : Value → Option Declaration
  member : Value → Option Member
  members : Value → Option (List Member)
  entry : Value → Option Entry
  entries : Value → Option (List Entry)
  object : Value → Option Object
  item : Value → Option Item
  items : Value → Option (List Item)
  document : Value → Option Document
  diagnostic : Value → Option Diagnostic
  diagnostics : Value → Option (List Diagnostic)

namespace Read

/-- A byte offset or a count, of 64 bits. -/
def offset : Value → Option Nat := readNat 0x10000000000000000

/-- A line or column, of 32 bits. -/
def place : Value → Option Nat := readNat 0x100000000

def wordClass (v : Value) : Option WordClass :=
  match readVariant Shape.wordClasses v with
  | some ("Keyword", some c) => (readUnit Shape.keywords c).map .keyword
  | some ("Type", some c) => (readUnit Shape.scalarTypes c).map .scalar
  | some ("VectorType", some c) => (readUnit Shape.vectorTypes c).map .vector
  | some ("Name", none) | some ("Name", some .nil) => some .name
  | _ => none

def span (r : Readers) (v : Value) : Option Span := do
  match ← readRecord r.skip Shape.span v with
  | [start, stop, line, column] =>
    some ⟨← start.bind offset, ← stop.bind offset, ← line.bind place, ← column.bind place⟩
  | _ => none

def name (r : Readers) (v : Value) : Option Name := do
  match ← readRecord r.skip Shape.name v with
  | [text, s] => some ⟨← text.bind readText, ← s.bind r.span⟩
  | _ => none

def error (r : Readers) (v : Value) : Option ErrorNode := do
  match ← readRecord r.skip Shape.error v with
  | [s, text] => some ⟨← s.bind r.span, ← text.bind readText⟩
  | _ => none

def type (r : Readers) (v : Value) : Option TypeRef := do
  match ← readRecord r.skip Shape.type v with
  | [n, c, params, s] =>
    some ⟨← n.bind r.name, ← c.bind wordClass, ← params.bind r.types, ← s.bind r.span⟩
  | _ => none

def vectorType (r : Readers) (v : Value) : Option (Name × Option VectorType) := do
  match ← readRecord r.skip Shape.vectorType v with
  | [n, builtin] => some (← n.bind r.name, ← readOption (readUnit Shape.vectorTypes) builtin)
  | _ => none

def bool (r : Readers) : Value → Option Expr
  | .array [b, s] => do some (.bool (← readBool b) (← r.span s))
  | _ => none

def number (r : Readers) (v : Value) : Option Expr := do
  match ← readRecord r.skip Shape.number v with
  | [kind, text, s] =>
    some (.number (← kind.bind (readUnit Shape.numberKinds)) (← text.bind readText)
      (← s.bind r.span))
  | _ => none

def string (r : Readers) (v : Value) : Option Expr := do
  match ← readRecord r.skip Shape.string v with
  | [quote, raw, s] =>
    some (.string (← quote.bind (readUnit Shape.quotes)) (← raw.bind readText) (← s.bind r.span))
  | _ => none

def vector (r : Readers) (v : Value) : Option Expr := do
  match ← readRecord r.skip Shape.vector v with
  | [t, items, stray, s] => do
    let (n, builtin) ← t.bind r.vectorType
    some (.vector n builtin (← items.bind r.exprs) (← stray.bind offset) (← s.bind r.span))
  | _ => none

def list (r : Readers) (v : Value) : Option Expr := do
  match ← readRecord r.skip Shape.list v with
  | [items, stray, s] =>
    some (.list (← items.bind r.exprs) (← stray.bind offset) (← s.bind r.span))
  | _ => none

def map (r : Readers) (v : Value) : Option Expr := do
  match ← readRecord r.skip Shape.map v with
  | [keyword, pairs, s] =>
    some (.map (← keyword.bind r.name) (← pairs.bind r.exprs) (← s.bind r.span))
  | _ => none

def pair (r : Readers) (v : Value) : Option Expr := do
  match ← readRecord r.skip Shape.pair v with
  | [left, right, s] => some (.pair (← left.bind r.expr) (← right.bind r.expr) (← s.bind r.span))
  | _ => none

def unary (r : Readers) (v : Value) : Option Expr := do
  match ← readRecord r.skip Shape.unary v with
  | [op, operand, s] =>
    some (.unary (← op.bind (readUnit Shape.unaryOps)) (← operand.bind r.expr) (← s.bind r.span))
  | _ => none

def binary (r : Readers) (v : Value) : Option Expr := do
  match ← readRecord r.skip Shape.binary v with
  | [op, left, right, s] =>
    some (.binary (← op.bind (readUnit Shape.binaryOps)) (← left.bind r.expr)
      (← right.bind r.expr) (← s.bind r.span))
  | _ => none

def ternary (r : Readers) (v : Value) : Option Expr := do
  match ← readRecord r.skip Shape.ternary v with
  | [condition, yes, no, s] =>
    some (.ternary (← condition.bind r.expr) (← yes.bind r.expr) (← no.bind r.expr)
      (← s.bind r.span))
  | _ => none

def group (r : Readers) (v : Value) : Option Expr := do
  match ← readRecord r.skip Shape.group v with
  | [inner, s] => some (.group (← readOption r.expr inner) (← s.bind r.span))
  | _ => none

def generic (r : Readers) (v : Value) : Option Expr := do
  match ← readRecord r.skip Shape.generic v with
  | [n, index, s] =>
    some (.generic (← n.bind r.name) (← readOption r.expr index) (← s.bind r.span))
  | _ => none

def guid (r : Readers) (v : Value) : Option Expr := do
  match ← readRecord r.skip Shape.guid v with
  | [raw, s] => some (.guid (← raw.bind readText) (← s.bind r.span))
  | _ => none

def reference (r : Readers) (v : Value) : Option Reference := do
  match ← readRecord r.skip Shape.reference v with
  | [scope, segments, s] =>
    some ⟨← scope.bind (readUnit Shape.scopes), ← segments.bind r.segments, ← s.bind r.span⟩
  | _ => none

def assignment (r : Readers) (v : Value) : Option Assignment := do
  match ← readRecord r.skip Shape.assignment v with
  | [n, value, s] => some ⟨← n.bind r.name, ← value.bind r.expr, ← s.bind r.span⟩
  | _ => none

def visibility (r : Readers) (v : Value) : Option Visibility := do
  match ← readRecord r.skip Shape.visibility v with
  | [modifier, keyword, declaration, s] =>
    some ⟨← modifier.bind (readUnit Shape.modifiers), ← keyword.bind r.name,
      ← declaration.bind r.declaration, ← s.bind r.span⟩
  | _ => none

def template (r : Readers) (v : Value) : Option Template := do
  match ← readRecord r.skip Shape.template v with
  | [n, params, body, s] =>
    some ⟨← n.bind r.name, ← params.bind r.members, ← body.bind r.object, ← s.bind r.span⟩
  | _ => none

def member (r : Readers) (v : Value) : Option Member := do
  match ← readRecord r.skip Shape.member v with
  | [n, type, value, legacyColon, s] =>
    some ⟨← n.bind r.name, ← readOption r.type type, ← readOption r.expr value,
      ← legacyColon.bind readBool, ← s.bind r.span⟩
  | _ => none

def object (r : Readers) (v : Value) : Option Object := do
  match ← readRecord r.skip Shape.object v with
  | [typeName, entries, s] =>
    some ⟨← typeName.bind r.name, ← entries.bind r.entries, ← s.bind r.span⟩
  | _ => none

def expr (r : Readers) (v : Value) : Option Expr :=
  match readVariant Shape.exprs v with
  | some ("Nil", some c) => (span r c).map .nil
  | some ("Bool", some c) => bool r c
  | some ("Number", some c) => number r c
  | some ("String", some c) => string r c
  | some ("Object", some c) => (object r c).map .object
  | some ("Vector", some c) => vector r c
  | some ("List", some c) => list r c
  | some ("Map", some c) => map r c
  | some ("Pair", some c) => pair r c
  | some ("Unary", some c) => unary r c
  | some ("Binary", some c) => binary r c
  | some ("Ternary", some c) => ternary r c
  | some ("Group", some c) => group r c
  | some ("Generic", some c) => generic r c
  | some ("Guid", some c) => guid r c
  | some ("Reference", some c) => (reference r c).map .reference
  | some ("Assignment", some c) => (assignment r c).map .assignment
  | some ("Visibility", some c) => (visibility r c).map .visibility
  | some ("Error", some c) => (error r c).map .error
  | _ => none

def segmentName (r : Readers) (v : Value) : Option Segment := do
  match ← readRecord r.skip Shape.segmentName v with
  | [n, kind] => some (.name (← n.bind r.name) (← kind.bind (readUnit Shape.segmentKinds)))
  | _ => none

def segment (r : Readers) (v : Value) : Option Segment :=
  match readVariant Shape.segments v with
  | some ("Name", some c) => segmentName r c
  | some ("Index", some c) => (expr r c).map .index
  | _ => none

def declaration (r : Readers) (v : Value) : Option Declaration :=
  match readVariant Shape.declarations v with
  | some ("Assignment", some c) => (assignment r c).map .assignment
  | some ("Template", some c) => (template r c).map .template
  | _ => none

def entry (r : Readers) (v : Value) : Option Entry :=
  match readVariant Shape.entries v with
  | some ("Member", some c) => (member r c).map .member
  | some ("Assignment", some c) => (assignment r c).map .assignment
  | some ("Visibility", some c) => (visibility r c).map .visibility
  | some ("Reference", some c) => (reference r c).map .reference
  | some ("Error", some c) => (error r c).map .error
  | _ => none

def unnamed (r : Readers) (v : Value) : Option Unnamed := do
  match ← readRecord r.skip Shape.unnamed v with
  | [object, s] => some ⟨← object.bind r.object, ← s.bind r.span⟩
  | _ => none

def item (r : Readers) (v : Value) : Option Item :=
  match readVariant Shape.items v with
  | some ("Assignment", some c) => (assignment r c).map .assignment
  | some ("Visibility", some c) => (visibility r c).map .visibility
  | some ("Template", some c) => (template r c).map .template
  | some ("Unnamed", some c) => (unnamed r c).map .unnamed
  | some ("Member", some c) => (member r c).map .member
  | some ("Expr", some c) => (expr r c).map .expr
  | some ("Error", some c) => (error r c).map .error
  | _ => none

def document (r : Readers) (v : Value) : Option Document := do
  match ← readRecord r.skip Shape.document v with
  | [items, s] => some ⟨← items.bind r.items, ← s.bind r.span⟩
  | _ => none

def diagnostic (r : Readers) (v : Value) : Option Diagnostic := do
  match ← readRecord r.skip Shape.diagnostic v with
  | [s, message, kind] =>
    some ⟨← s.bind r.span, ← message.bind readText, ← kind.bind (readUnit Shape.diagnosticKinds)⟩
  | _ => none

def parsed (r : Readers) (v : Value) : Option Parsed := do
  match ← readRecord r.skip Shape.parsed v with
  | [document, diagnostics] =>
    some ⟨← document.bind r.document, ← diagnostics.bind r.diagnostics⟩
  | _ => none

end Read

namespace Readers

/-- With no level left there is nothing that could be read. -/
def bottom : Readers where
  skip := fits 0
  span _ := none
  name _ := none
  type _ := none
  types _ := none
  vectorType _ := none
  expr _ := none
  exprs _ := none
  segment _ := none
  segments _ := none
  declaration _ := none
  member _ := none
  members _ := none
  entry _ := none
  entries _ := none
  object _ := none
  item _ := none
  items _ := none
  document _ := none
  diagnostic _ := none
  diagnostics _ := none

/-- The readers one level above others, `n` levels being left in all. -/
def above (n : Nat) (r : Readers) : Readers where
  skip := fits n
  span := Read.span r
  name := Read.name r
  type := Read.type r
  types := readArray r.type
  vectorType := Read.vectorType r
  expr := Read.expr r
  exprs := readArray r.expr
  segment := Read.segment r
  segments := readArray r.segment
  declaration := Read.declaration r
  member := Read.member r
  members := readArray r.member
  entry := Read.entry r
  entries := readArray r.entry
  object := Read.object r
  item := Read.item r
  items := readArray r.item
  document := Read.document r
  diagnostic := Read.diagnostic r
  diagnostics := readArray r.diagnostic

/-- The readers where `n` levels are left. -/
def levels : Nat → Readers
  | 0 => bottom
  | n + 1 => above (n + 1) (levels n)

end Readers
end Export
end Ndf
