/-
# Writing an export

A parsed source as a MessagePack value: a map for each node, under the names of
`Ndf.Export.Shape`.  Each function here writes the kind of node that it is named for; the plural
forms write nodes in order, and a question mark stands for a node that may be missing.
-/

import Ndf.Export.Shape
import Ndf.MessagePack.Record

namespace Ndf
namespace Export
namespace Write

open MessagePack (Value)

/-- The name of an element in a table. -/
def unit {α : Type} [BEq α] (table : List (String × α)) (a : α) : Value :=
  .text (((table.find? fun e => e.2 == a).map Prod.fst).getD "")

def span (s : Span) : Value :=
  .record Shape.span [.uint s.start, .uint s.stop, .uint s.line, .uint s.column]

def name (n : Name) : Value := .record Shape.name [.text n.text, span n.span]

def error (e : ErrorNode) : Value := .record Shape.error [span e.span, .text e.text]

def wordClass : WordClass → Value
  | .keyword k => .variant "Keyword" (unit Shape.keywords k)
  | .scalar t => .variant "Type" (unit Shape.scalarTypes t)
  | .vector t => .variant "VectorType" (unit Shape.vectorTypes t)
  | .name => .text "Name"

def vectorType (n : Name) (builtin : Option VectorType) : Value :=
  .record Shape.vectorType [name n, .option (unit Shape.vectorTypes) builtin]

mutual

def type : TypeRef → Value
  | ⟨n, c, params, s⟩ => .record Shape.type [name n, wordClass c, .array (types params), span s]

def types : List TypeRef → List Value
  | [] => []
  | t :: rest => type t :: types rest

end

mutual

def expr : Expr → Value
  | .nil s => .variant "Nil" (span s)
  | .bool b s => .variant "Bool" (.array [.bool b, span s])
  | .number kind text s =>
    .variant "Number" (.record Shape.number [unit Shape.numberKinds kind, .text text, span s])
  | .string quote raw s =>
    .variant "String" (.record Shape.string [unit Shape.quotes quote, .text raw, span s])
  | .object o => .variant "Object" (object o)
  | .vector n builtin items stray s =>
    .variant "Vector"
      (.record Shape.vector [vectorType n builtin, .array (exprs items), .uint stray, span s])
  | .list items stray s =>
    .variant "List" (.record Shape.list [.array (exprs items), .uint stray, span s])
  | .map keyword pairs s =>
    .variant "Map" (.record Shape.map [name keyword, .array (exprs pairs), span s])
  | .pair left right s => .variant "Pair" (.record Shape.pair [expr left, expr right, span s])
  | .unary op operand s =>
    .variant "Unary" (.record Shape.unary [unit Shape.unaryOps op, expr operand, span s])
  | .binary op left right s =>
    .variant "Binary"
      (.record Shape.binary [unit Shape.binaryOps op, expr left, expr right, span s])
  | .ternary condition yes no s =>
    .variant "Ternary" (.record Shape.ternary [expr condition, expr yes, expr no, span s])
  | .group inner s => .variant "Group" (.record Shape.group [expr? inner, span s])
  | .generic n index s => .variant "Generic" (.record Shape.generic [name n, expr? index, span s])
  | .guid raw s => .variant "Guid" (.record Shape.guid [.text raw, span s])
  | .reference r => .variant "Reference" (reference r)
  | .assignment a => .variant "Assignment" (assignment a)
  | .visibility v => .variant "Visibility" (visibility v)
  | .error e => .variant "Error" (error e)

def exprs : List Expr → List Value
  | [] => []
  | e :: rest => expr e :: exprs rest

def expr? : Option Expr → Value
  | none => .nil
  | some e => expr e

def reference : Reference → Value
  | ⟨scope, segs, s⟩ =>
    .record Shape.reference [unit Shape.scopes scope, .array (segments segs), span s]

def segments : List Segment → List Value
  | [] => []
  | s :: rest => segment s :: segments rest

def segment : Segment → Value
  | .name n kind =>
    .variant "Name" (.record Shape.segmentName [name n, unit Shape.segmentKinds kind])
  | .index e => .variant "Index" (expr e)

def assignment : Assignment → Value
  | ⟨n, value, s⟩ => .record Shape.assignment [name n, expr value, span s]

def declaration : Declaration → Value
  | .assignment a => .variant "Assignment" (assignment a)
  | .template t => .variant "Template" (template t)

def visibility : Visibility → Value
  | ⟨modifier, keyword, decl, s⟩ =>
    .record Shape.visibility
      [unit Shape.modifiers modifier, name keyword, declaration decl, span s]

def template : Template → Value
  | ⟨n, params, body, s⟩ =>
    .record Shape.template [name n, .array (members params), object body, span s]

def members : List Member → List Value
  | [] => []
  | m :: rest => member m :: members rest

def member : Member → Value
  | ⟨n, type?, value, legacyColon, s⟩ =>
    .record Shape.member [name n, .option type type?, expr? value, .bool legacyColon, span s]

def entry : Entry → Value
  | .member m => .variant "Member" (member m)
  | .assignment a => .variant "Assignment" (assignment a)
  | .visibility v => .variant "Visibility" (visibility v)
  | .reference r => .variant "Reference" (reference r)
  | .error e => .variant "Error" (error e)

def entries : List Entry → List Value
  | [] => []
  | e :: rest => entry e :: entries rest

def object : Object → Value
  | ⟨typeName, es, s⟩ => .record Shape.object [name typeName, .array (entries es), span s]

end

def item : Item → Value
  | .assignment a => .variant "Assignment" (assignment a)
  | .visibility v => .variant "Visibility" (visibility v)
  | .template t => .variant "Template" (template t)
  | .unnamed u => .variant "Unnamed" (.record Shape.unnamed [object u.object, span u.span])
  | .member m => .variant "Member" (member m)
  | .expr e => .variant "Expr" (expr e)
  | .error e => .variant "Error" (error e)

def document (d : Document) : Value :=
  .record Shape.document [.array (d.items.map item), span d.span]

def diagnostic (d : Diagnostic) : Value :=
  .record Shape.diagnostic [span d.span, .text d.message, unit Shape.diagnosticKinds d.kind]

def parsed (p : Parsed) : Value :=
  .record Shape.parsed [document p.document, .array (p.diagnostics.map diagnostic)]

end Write
end Export
end Ndf
