/-
# What a dump shows

What is left of a tree if it is not said where its parts stand and how its keywords are spelled:
every span becomes `Span.zero`, and the modifier in front of a declaration and the word in front of
a map lose their text.  All else is kept, the texts of unreadable fragments and the counts of stray
commas included.

The dump of a tree is that of what it shows (`Document.dump_shown`).
-/

import Ndf.Proofs.Tree.Bare

namespace Ndf
namespace Shown

/-- The name of a keyword, without its spelling. -/
def keyword : Name := ⟨"", .zero⟩

/-- An unreadable fragment with its text. -/
def errorNode (e : ErrorNode) : ErrorNode := ⟨.zero, e.text⟩

mutual

/-- An expression without places and spellings of keywords. -/
def expr : Expr → Expr
  | .nil _ => .nil .zero
  | .bool b _ => .bool b .zero
  | .number k t _ => .number k t .zero
  | .string q t _ => .string q t .zero
  | .object o => .object (object o)
  | .vector n b items c _ => .vector (Bare.name n) b (exprs items) c .zero
  | .list items c _ => .list (exprs items) c .zero
  | .map _ pairs _ => .map keyword (exprs pairs) .zero
  | .pair a b _ => .pair (expr a) (expr b) .zero
  | .unary op e _ => .unary op (expr e) .zero
  | .binary op a b _ => .binary op (expr a) (expr b) .zero
  | .ternary c a b _ => .ternary (expr c) (expr a) (expr b) .zero
  | .group inner _ => .group (expr? inner) .zero
  | .generic n index _ => .generic (Bare.name n) (expr? index) .zero
  | .guid t _ => .guid t .zero
  | .reference x => .reference (reference x)
  | .assignment a => .assignment (assignment a)
  | .visibility v => .visibility (visibility v)
  | .error e => .error (errorNode e)

def exprs : List Expr → List Expr
  | [] => []
  | e :: rest => expr e :: exprs rest

def expr? : Option Expr → Option Expr
  | none => none
  | some e => some (expr e)

def reference : Reference → Reference
  | ⟨scope, segs, _⟩ => ⟨scope, segments segs, .zero⟩

def segment : Segment → Segment
  | .name n kind => .name (Bare.name n) kind
  | .index e => .index (expr e)

def segments : List Segment → List Segment
  | [] => []
  | x :: rest => segment x :: segments rest

def assignment : Assignment → Assignment
  | ⟨n, value, _⟩ => ⟨Bare.name n, expr value, .zero⟩

def declaration : Declaration → Declaration
  | .assignment a => .assignment (assignment a)
  | .template t => .template (template t)

def visibility : Visibility → Visibility
  | ⟨modifier, _, decl, _⟩ => ⟨modifier, keyword, declaration decl, .zero⟩

def template : Template → Template
  | ⟨n, params, body, _⟩ => ⟨Bare.name n, members params, object body, .zero⟩

def member : Member → Member
  | ⟨n, type?, value, legacyColon, _⟩ =>
    ⟨Bare.name n, type?.map Bare.type, expr? value, legacyColon, .zero⟩

def members : List Member → List Member
  | [] => []
  | m :: rest => member m :: members rest

def entry : Entry → Entry
  | .member m => .member (member m)
  | .assignment a => .assignment (assignment a)
  | .visibility v => .visibility (visibility v)
  | .reference x => .reference (reference x)
  | .error e => .error (errorNode e)

def entries : List Entry → List Entry
  | [] => []
  | e :: rest => entry e :: entries rest

def object : Object → Object
  | ⟨n, es, _⟩ => ⟨Bare.name n, entries es, .zero⟩

end

/-- An item without places and spellings of keywords. -/
def item : Item → Item
  | .assignment a => .assignment (assignment a)
  | .visibility v => .visibility (visibility v)
  | .template t => .template (template t)
  | .unnamed u => .unnamed ⟨object u.object, .zero⟩
  | .member m => .member (member m)
  | .expr e => .expr (expr e)
  | .error e => .error (errorNode e)

/-! ### Dumps

Nothing of what a dump shows is lost. -/

mutual

theorem expr_dump : ∀ e, Dump.expr (expr e) = Dump.expr e
  | .nil _ | .bool .. | .string .. | .guid .. | .error _ => rfl
  | .number k _ _ => by cases k <;> rfl
  | .object o => by rw [expr, Dump.expr, Dump.expr, object_dump o]
  | .vector _ _ items _ _ => by rw [expr, Dump.expr, Dump.expr, exprs_dump items]; rfl
  | .list items _ _ => by rw [expr, Dump.expr, Dump.expr, exprs_dump items]
  | .map _ pairs _ => by rw [expr, Dump.expr, Dump.expr, exprs_dump pairs]
  | .pair a b _ => by rw [expr, Dump.expr, Dump.expr, expr_dump a, expr_dump b]
  | .unary _ e _ => by rw [expr, Dump.expr, Dump.expr, expr_dump e]
  | .binary _ a b _ => by rw [expr, Dump.expr, Dump.expr, expr_dump a, expr_dump b]
  | .ternary c a b _ => by
    rw [expr, Dump.expr, Dump.expr, expr_dump c, expr_dump a, expr_dump b]
  | .group inner _ => by rw [expr, Dump.expr, Dump.expr, expr?_dump inner]
  | .generic _ index _ => by rw [expr, Dump.expr, Dump.expr, expr?_dump index]; rfl
  | .reference x => by rw [expr, Dump.expr, Dump.expr, reference_dump x]
  | .assignment a => by rw [expr, Dump.expr, Dump.expr, assignment_dump a]
  | .visibility v => by rw [expr, Dump.expr, Dump.expr, visibility_dump v]

theorem exprs_dump : ∀ es, Dump.exprs (exprs es) = Dump.exprs es
  | [] => rfl
  | e :: es => by rw [exprs, Dump.exprs, Dump.exprs, expr_dump e, exprs_dump es]

theorem expr?_dump : ∀ e, Dump.expr? (expr? e) = Dump.expr? e
  | none => rfl
  | some e => by rw [expr?, Dump.expr?, Dump.expr?, expr_dump e]

theorem reference_dump : ∀ x, Dump.reference (reference x) = Dump.reference x
  | ⟨_, segs, _⟩ => by rw [reference, Dump.reference, Dump.reference, segments_dump segs]

theorem segments_dump : ∀ xs, Dump.segments (segments xs) = Dump.segments xs
  | [] => rfl
  | .name .. :: xs => by rw [segments, Dump.segments, Dump.segments, segments_dump xs]; rfl
  | .index e :: xs => by
    rw [segments, segment, Dump.segments, Dump.segments, segments_dump xs, Dump.segment,
      Dump.segment, expr_dump e]

theorem assignment_dump : ∀ a, Dump.assignment (assignment a) = Dump.assignment a
  | ⟨_, value, _⟩ => by
    rw [assignment, Dump.assignment, Dump.assignment, expr_dump value]; rfl

theorem declaration_dump : ∀ d, Dump.declaration (declaration d) = Dump.declaration d
  | .assignment a => by rw [declaration, Dump.declaration, Dump.declaration, assignment_dump a]
  | .template t => by rw [declaration, Dump.declaration, Dump.declaration, template_dump t]

theorem visibility_dump : ∀ v, Dump.visibility (visibility v) = Dump.visibility v
  | ⟨_, _, decl, _⟩ => by rw [visibility, Dump.visibility, Dump.visibility, declaration_dump decl]

theorem template_dump : ∀ t, Dump.template (template t) = Dump.template t
  | ⟨_, params, body, _⟩ => by
    rw [template, Dump.template, Dump.template, members_dump params, object_dump body]; rfl

theorem member_dump : ∀ m, Dump.member (member m) = Dump.member m
  | ⟨_, none, value, _, _⟩ => by rw [member, Dump.member, Dump.member, expr?_dump value]; rfl
  | ⟨_, some t, value, _, _⟩ => by
    rw [member, Dump.member, Dump.member, expr?_dump value, Option.map_some, Option.toList_some,
      List.map_singleton, Bare.type_dump t]
    rfl

theorem members_dump : ∀ ms, Dump.members (members ms) = Dump.members ms
  | [] => rfl
  | m :: ms => by rw [members, Dump.members, Dump.members, member_dump m, members_dump ms]

theorem entry_dump : ∀ e, Dump.entry (entry e) = Dump.entry e
  | .member m => by rw [entry, Dump.entry, Dump.entry, member_dump m]
  | .assignment a => by rw [entry, Dump.entry, Dump.entry, assignment_dump a]
  | .visibility v => by rw [entry, Dump.entry, Dump.entry, visibility_dump v]
  | .reference x => by rw [entry, Dump.entry, Dump.entry, reference_dump x]
  | .error _ => rfl

theorem entries_dump : ∀ es, Dump.entries (entries es) = Dump.entries es
  | [] => rfl
  | e :: es => by rw [entries, Dump.entries, Dump.entries, entry_dump e, entries_dump es]

theorem object_dump : ∀ o, Dump.object (object o) = Dump.object o
  | ⟨_, es, _⟩ => by rw [object, Dump.object, Dump.object, entries_dump es]; rfl

end

/-- What the dump shows of an item is kept. -/
theorem item_dump (i : Item) : Dump.item (item i) = Dump.item i := by
  cases i with
  | assignment a => exact assignment_dump a
  | visibility v => exact visibility_dump v
  | template t => exact template_dump t
  | unnamed u => exact congrArg (fun s => Sexp.tagged "unnamed" [s]) (object_dump u.object)
  | member m => exact member_dump m
  | expr e => exact expr_dump e
  | error e => rfl

end Shown

/-- A document without places and spellings of keywords. -/
def Document.shown (d : Document) : Document := ⟨d.items.map Shown.item, .zero⟩

/-- **The dump of a document is that of what it shows.** -/
theorem Document.dump_shown (d : Document) : d.shown.dump = d.dump := by
  unfold dump Dump.document shown
  rw [List.map_map]
  congr 2
  exact List.map_congr_left fun i _ => Shown.item_dump i

end Ndf
