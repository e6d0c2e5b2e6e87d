/-
# Trees that fit the format

The format has eight bytes for a byte offset and for a count of stray commas, and four for a line, a
column and the length of a text or of a list.  `InRange` says of each kind of node that everything
in it fits; sources of less than four gigabytes have no other trees.
-/

import Ndf.Parser.Document

namespace Ndf

/-- A length that fits four bytes. -/
def Measured (n : Nat) : Prop := n < 0x100000000

/-- A text whose length fits. -/
def Terse (s : String) : Prop := Measured s.utf8ByteSize

/-- The offsets of a span fit in eight bytes, its line and column in four. -/
structure Span.InRange (s : Span) : Prop where
  start : s.start < 0x10000000000000000
  stop : s.stop < 0x10000000000000000
  line : s.line < 0x100000000
  column : s.column < 0x100000000

/-- The text and the span of a name fit. -/
def Name.InRange (n : Name) : Prop := Terse n.text ∧ n.span.InRange

/-- The text and the span of a fragment fit. -/
def ErrorNode.InRange (e : ErrorNode) : Prop := e.span.InRange ∧ Terse e.text

mutual

/-- A type fits, with its parameters and their number. -/
def TypeRef.InRange : TypeRef → Prop
  | ⟨n, _, params, s⟩ => n.InRange ∧ Measured params.length ∧ TypesInRange params ∧ s.InRange

/-- Several types fit. -/
def TypesInRange : List TypeRef → Prop
  | [] => True
  | t :: rest => t.InRange ∧ TypesInRange rest

end

mutual

/-- An expression fits, with all that is inside it. -/
def Expr.InRange : Expr → Prop
  | .nil s | .bool _ s => s.InRange
  | .number _ text s | .string _ text s | .guid text s => Terse text ∧ s.InRange
  | .object o => o.InRange
  | .vector n _ items stray s =>
    n.InRange ∧ Measured items.length ∧ ExprsInRange items ∧ stray < 0x10000000000000000 ∧ s.InRange
  | .list items stray s =>
    Measured items.length ∧ ExprsInRange items ∧ stray < 0x10000000000000000 ∧ s.InRange
  | .map n pairs s => n.InRange ∧ Measured pairs.length ∧ ExprsInRange pairs ∧ s.InRange
  | .pair left right s | .binary _ left right s => left.InRange ∧ right.InRange ∧ s.InRange
  | .unary _ operand s => operand.InRange ∧ s.InRange
  | .ternary condition yes no s => condition.InRange ∧ yes.InRange ∧ no.InRange ∧ s.InRange
  | .group inner s => InRange? inner ∧ s.InRange
  | .generic n index s => n.InRange ∧ InRange? index ∧ s.InRange
  | .reference r => r.InRange
  | .assignment a => a.InRange
  | .visibility v => v.InRange
  | .error e => e.InRange

/-- Several expressions fit. -/
def ExprsInRange : List Expr → Prop
  | [] => True
  | e :: rest => e.InRange ∧ ExprsInRange rest

/-- An expression that may be missing fits. -/
def InRange? : Option Expr → Prop
  | none => True
  | some e => e.InRange

/-- A reference fits, with its segments and their number. -/
def Reference.InRange : Reference → Prop
  | ⟨_, segments, s⟩ => Measured segments.length ∧ SegmentsInRange segments ∧ s.InRange

/-- Several segments fit. -/
def SegmentsInRange : List Segment → Prop
  | [] => True
  | s :: rest => s.InRange ∧ SegmentsInRange rest

/-- A segment fits: its name or its index. -/
def Segment.InRange : Segment → Prop
  | .name n _ => n.InRange
  | .index e => e.InRange

/-- An assignment fits. -/
def Assignment.InRange : Assignment → Prop
  | ⟨n, value, s⟩ => n.InRange ∧ value.InRange ∧ s.InRange

/-- A declaration fits. -/
def Declaration.InRange : Declaration → Prop
  | .assignment a => a.InRange
  | .template t => t.InRange

/-- A declaration behind a modifier fits, and the modifier as it is written. -/
def Visibility.InRange : Visibility → Prop
  | ⟨_, keyword, declaration, s⟩ => keyword.InRange ∧ declaration.InRange ∧ s.InRange

/-- A template fits, with its parameters and their number. -/
def Template.InRange : Template → Prop
  | ⟨n, params, body, s⟩ =>
    n.InRange ∧ Measured params.length ∧ MembersInRange params ∧ body.InRange ∧ s.InRange

/-- Several members fit. -/
def MembersInRange : List Member → Prop
  | [] => True
  | m :: rest => m.InRange ∧ MembersInRange rest

/-- A member fits, with its type and its value as far as it has them. -/
def Member.InRange : Member → Prop
  | ⟨n, type, value, _, s⟩ => n.InRange ∧ (∀ t ∈ type, t.InRange) ∧ InRange? value ∧ s.InRange

/-- An entry fits. -/
def Entry.InRange : Entry → Prop
  | .member m => m.InRange
  | .assignment a => a.InRange
  | .visibility v => v.InRange
  | .reference r => r.InRange
  | .error e => e.InRange

/-- Several entries fit. -/
def EntriesInRange : List Entry → Prop
  | [] => True
  | e :: rest => e.InRange ∧ EntriesInRange rest

/-- An object fits, with its entries and their number. -/
def Object.InRange : Object → Prop
  | ⟨n, entries, s⟩ => n.InRange ∧ Measured entries.length ∧ EntriesInRange entries ∧ s.InRange

end

/-- An item fits. -/
def Item.InRange : Item → Prop
  | .assignment a => a.InRange
  | .visibility v => v.InRange
  | .template t => t.InRange
  | .unnamed u => u.object.InRange ∧ u.span.InRange
  | .member m => m.InRange
  | .expr e => e.InRange
  | .error e => e.InRange

/-- A document fits, with its items and their number. -/
structure Document.InRange (d : Document) : Prop where
  length : Measured d.items.length
  items : ∀ i ∈ d.items, i.InRange
  span : d.span.InRange

/-- The message and the span of a diagnostic fit. -/
structure Diagnostic.InRange (d : Diagnostic) : Prop where
  span : d.span.InRange
  message : Terse d.message

/-- Everything in a parsed source fits. -/
structure Parsed.InRange (p : Parsed) : Prop where
  document : p.document.InRange
  length : Measured p.diagnostics.length
  diagnostics : ∀ d ∈ p.diagnostics, d.InRange

end Ndf
