/-
# Syntax trees

`SPEC_FULL.md` §3, "Data model".

A document is a list of items: declarations, members, objects and expressions, in any order and
without separators.  Nothing is evaluated or normalised: names, numbers, strings and guid payloads
are kept as they are written.  Every node carries its span, and a fragment that could not be read
is an `ErrorNode` that carries its text, so a tree exists for every source.

Expressions hold objects, objects hold members and declarations, and these hold expressions again,
so the types from `Expr` to `Object` are defined together.
-/

import Ndf.Token

namespace Ndf

/-- A word used as a name, in its exact spelling. -/
structure Name where
  text : String
  span : Span
deriving DecidableEq, Repr

/-- A fragment that could not be read. -/
structure ErrorNode where
  span : Span
  text : String
deriving DecidableEq, Repr

/-- The visibility modifiers. -/
inductive Modifier where
  | «export» | «private» | «public»
deriving DecidableEq, Repr

/-- The lower-case spelling of a modifier. -/
def Modifier.spelling : Modifier → String
  | .export => "export"
  | .private => "private"
  | .public => "public"

/-- Where a reference starts to look: `./`, `~/`, `$/` or nowhere in particular. -/
inductive Scope where
  | none | current | root | global
deriving DecidableEq, Repr

/-- The mark of a scope, which a slash follows. -/
def Scope.mark : Scope → Option Char
  | .none => Option.none
  | .current => some '.'
  | .root => some '~'
  | .global => some '$'

/-- How a name of a reference is joined to its neighbours. -/
inductive SegmentKind where
  /-- It stands alone. -/
  | terminal
  /-- By a slash. -/
  | nested
  /-- By a point. -/
  | member
deriving DecidableEq, Repr

/-- The operators in front of an operand. -/
inductive UnaryOp where
  | neg | not
deriving DecidableEq, Repr

/-- The sign of an operator. -/
def UnaryOp.sign : UnaryOp → String
  | .neg => "-"
  | .not => "!"

/-- A sign tells its operator. -/
theorem UnaryOp.sign_injective {op op' : UnaryOp} (h : op.sign = op'.sign) : op = op' := by
  revert h
  cases op <;> cases op' <;> decide

/-- The operators between two operands. -/
inductive BinaryOp where
  | mul | div | rem | add | sub | eq | notEq | lt | ltEq | gt | gtEq | and | or
deriving DecidableEq, Repr

/-- The sign of an operator. -/
def BinaryOp.sign : BinaryOp → String
  | .mul => "*"
  | .div => "div"
  | .rem => "%"
  | .add => "+"
  | .sub => "-"
  | .eq => "=="
  | .notEq => "!="
  | .lt => "<"
  | .ltEq => "<="
  | .gt => ">"
  | .gtEq => ">="
  | .and => "&"
  | .or => "|"

/-- So does one of two operands. -/
theorem BinaryOp.sign_injective {op op' : BinaryOp} (h : op.sign = op'.sign) : op = op' := by
  revert h
  cases op <;> cases op' <;> decide

/-- A type annotation, such as `int` or `MAP<string, int>`. -/
structure TypeRef where
  name : Name
  wordClass : WordClass
  params : List TypeRef
  span : Span

mutual

/-- An expression. -/
inductive Expr where
  | nil (span : Span)
  | bool (value : Bool) (span : Span)
  | number (kind : NumberKind) (text : String) (span : Span)
  /-- A string; the body is raw, escapes included. -/
  | string (quote : Quote) (raw : String) (span : Span)
  | object (object : Object)
  /-- `Type[items]`.  `builtin` is given if the type is a built-in one. -/
  | vector (type : Name) (builtin : Option VectorType) (items : List Expr) (strayCommas : Nat)
      (span : Span)
  /-- `[items]`. -/
  | list (items : List Expr) (strayCommas : Nat) (span : Span)
  /-- `MAP[pairs]`. -/
  | map (keyword : Name) (pairs : List Expr) (span : Span)
  /-- `(left, right)`. -/
  | pair (left right : Expr) (span : Span)
  | unary (op : UnaryOp) (operand : Expr) (span : Span)
  | binary (op : BinaryOp) (left right : Expr) (span : Span)
  /-- `condition ? yes : no`. -/
  | ternary (condition yes no : Expr) (span : Span)
  /-- `()` or `(inner)`. -/
  | group (inner : Option Expr) (span : Span)
  /-- `<Name>` or `<Name>[index]`. -/
  | generic (name : Name) (index : Option Expr) (span : Span)
  /-- The payload of `guid:`, without its braces. -/
  | guid (raw : String) (span : Span)
  | reference (reference : Reference)
  | assignment (assignment : Assignment)
  | visibility (visibility : Visibility)
  | error (error : ErrorNode)

/-- A path of names and index expressions. -/
structure Reference where
  scope : Scope
  segments : List Segment
  span : Span

/-- A step of a reference. -/
inductive Segment where
  | name (name : Name) (kind : SegmentKind)
  | index (index : Expr)

/-- `name is value`. -/
structure Assignment where
  name : Name
  value : Expr
  span : Span

/-- What a visibility modifier stands in front of. -/
inductive Declaration where
  | assignment (assignment : Assignment)
  | template (template : Template)

/-- A declaration behind a visibility modifier; `keyword` is the modifier as it is written. -/
structure Visibility where
  modifier : Modifier
  keyword : Name
  declaration : Declaration
  span : Span

/-- `template name [params] is body`. -/
structure Template where
  name : Name
  params : List Member
  body : Object
  span : Span

/-- `name : type = value`, where the type or the value may be missing.  The old form
`name : = value` has the legacy colon. -/
structure Member where
  name : Name
  type : Option TypeRef
  value : Option Expr
  legacyColon : Bool
  span : Span

/-- A part of an object. -/
inductive Entry where
  | member (member : Member)
  | assignment (assignment : Assignment)
  | visibility (visibility : Visibility)
  | reference (reference : Reference)
  | error (error : ErrorNode)

/-- `Type( entries )`. -/
structure Object where
  typeName : Name
  entries : List Entry
  span : Span

end

/-- `unnamed Type( entries )`. -/
structure Unnamed where
  object : Object
  span : Span

/-- A part of a document. -/
inductive Item where
  | assignment (assignment : Assignment)
  | visibility (visibility : Visibility)
  | template (template : Template)
  | unnamed (unnamed : Unnamed)
  | member (member : Member)
  | expr (expr : Expr)
  | error (error : ErrorNode)

/-- A source text as a tree. -/
structure Document where
  items : List Item
  span : Span

namespace Expr

/-- Where an expression stands. -/
def span : Expr → Span
  | .nil s | .bool _ s | .number _ _ s | .string _ _ s => s
  | .object o => o.span
  | .vector _ _ _ _ s | .list _ _ s | .map _ _ s | .pair _ _ s => s
  | .unary _ _ s | .binary _ _ _ s | .ternary _ _ _ s => s
  | .group _ s | .generic _ _ s | .guid _ s => s
  | .reference r => r.span
  | .assignment a => a.span
  | .visibility v => v.span
  | .error e => e.span

/-- What messages and tree dumps call an expression. -/
def typeName : Expr → String
  | .nil _ => "nil"
  | .bool .. => "bool"
  | .number .decimal .. => "number_dec"
  | .number .hex .. => "number_hex"
  | .number .float .. => "number_float"
  | .string .. => "string"
  | .object _ => "object"
  | .vector .. => "vector_type"
  | .list .. => "list"
  | .map .. => "map"
  | .pair .. => "pair"
  | .unary .. => "unary_expression"
  | .binary .. => "binary_expression"
  | .ternary .. => "ternary"
  | .group .. => "group"
  | .generic .. => "generic"
  | .guid .. => "guid"
  | .reference _ => "reference"
  | .assignment _ => "assignment"
  | .visibility _ => "visibility"
  | .error _ => "ERROR"

/-- Whether an expression is an unreadable fragment. -/
def isError : Expr → Bool
  | .error _ => true
  | _ => false

/-- The text of a number. -/
def number? : Expr → Option String
  | .number _ text _ => some text
  | _ => none

/-- The object that an expression is. -/
def object? : Expr → Option Object
  | .object o => some o
  | _ => none

/-- The reference that an expression is. -/
def reference? : Expr → Option Reference
  | .reference r => some r
  | _ => none

end Expr

namespace Segment

/-- The name that a segment is. -/
def name? : Segment → Option Name
  | .name n _ => some n
  | .index _ => none

end Segment

/-- The forms of a reference, told apart by its scope or its last step. -/
inductive ReferenceKind where
  | terminal | nested | member | indexed | scoped
deriving DecidableEq, Repr

namespace Reference

/-- The form of a reference. -/
def kind (r : Reference) : ReferenceKind :=
  if r.scope ≠ .none then .scoped
  else
    match r.segments.getLast? with
    | some (.index _) => .indexed
    | some (.name _ .nested) => .nested
    | some (.name _ .member) => .member
    | _ => .terminal

/-- The names of a reference in order. -/
def names (r : Reference) : List Name := r.segments.filterMap Segment.name?

/-- The sign in front of a name that follows a name of the given kind. -/
def joiner : Option SegmentKind → String
  | none => ""
  | some .member => "."
  | some _ => "/"

/-- The names of a list of segments with the signs between them, indexes left out. -/
def pathOf (before : Option SegmentKind) : List Segment → String
  | [] => ""
  | .name n kind :: rest => joiner before ++ n.text ++ pathOf (some kind) rest
  | .index _ :: rest => pathOf before rest

/-- The mark of a scope and its slash. -/
def scopeText (scope : Scope) : String :=
  match scope.mark with
  | some c => String.ofList [c, '/']
  | none => ""

/-- A reference as text, indexes left out. -/
def path (r : Reference) : String := scopeText r.scope ++ pathOf none r.segments

end Reference

/-- The name that a declaration binds. -/
def Declaration.name : Declaration → Name
  | .assignment a => a.name
  | .template t => t.name

namespace Entry

/-- Where an entry stands. -/
def span : Entry → Span
  | .member m => m.span
  | .assignment a => a.span
  | .visibility v => v.span
  | .reference r => r.span
  | .error e => e.span

/-- The member that an entry is. -/
def member? : Entry → Option Member
  | .member m => some m
  | _ => none

end Entry

namespace Object

/-- The members of an object in order. -/
def members (o : Object) : List Member := o.entries.filterMap Entry.member?

/-- The first member of a name. -/
def member? (o : Object) (name : String) : Option Member :=
  o.members.find? fun m => m.name.text == name

end Object

namespace Item

/-- Where an item stands. -/
def span : Item → Span
  | .assignment a => a.span
  | .visibility v => v.span
  | .template t => t.span
  | .unnamed u => u.span
  | .member m => m.span
  | .expr e => e.span
  | .error e => e.span

/-- Whether an item is an unreadable fragment. -/
def isError : Item → Bool
  | .error _ => true
  | _ => false

end Item

end Ndf
