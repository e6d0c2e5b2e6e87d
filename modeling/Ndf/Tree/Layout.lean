/-
# Canonical text

`SPEC_FULL.md` E6, the canonical text, with the options of E3; §8 for what it is to keep.

A tree as source text in one fixed layout: an object with its parenthesis under the type name and
an entry to a line, a template likewise, and a list on one line unless it holds something that
takes several.  Literals are written as they were read, and stray commas are dropped.

`Margin` says how far a line is indented; every function takes the margin of the lines that it
begins, not of the one that it continues.
-/

import Ndf.Tree

namespace Ndf

/-- The choices of a layout. -/
structure Style where
  /-- The number of spaces for each level. -/
  indentWidth : Nat := 4
  /-- Whether an empty line separates two items. -/
  blankLine : Bool := true
deriving DecidableEq, Repr

namespace Layout

/-- How far lines are indented: so many levels of so many spaces. -/
structure Margin where
  width : Nat
  level : Nat

/-- One level further in. -/
def Margin.deeper (m : Margin) : Margin := { m with level := m.level + 1 }

/-- The start of a new line. -/
def Margin.newline (m : Margin) : String :=
  String.ofList ('\n' :: List.replicate (m.level * m.width) ' ')

/-- The start of a new line, if there is one. -/
def Margin.lead (m : Margin) (block : Bool) : String := if block then m.newline else ""

/-- The margin inside brackets. -/
def Margin.inside (m : Margin) (block : Bool) : Margin := if block then m.deeper else m

mutual

/-- Whether an expression is written on several lines wherever it stands. -/
def isBlock : Expr → Bool
  | .object ⟨_, entries, _⟩ => !entries.isEmpty
  | .vector _ _ items _ _ => anyBlock items
  | .list items _ _ => anyBlock items
  | .map _ pairs _ => anyBlock pairs
  | .pair left right _ => isBlock left || isBlock right
  | .unary _ operand _ => isBlock operand
  | .binary _ left right _ => isBlock left || isBlock right
  | .ternary condition yes no _ => isBlock condition || isBlock yes || isBlock no
  | .group inner _ => isBlock? inner
  | .assignment ⟨_, value, _⟩ => isBlock value
  | .visibility _ => true
  | .error e => e.text.toList.contains '\n'
  | .nil _ | .bool .. | .number .. | .string .. | .generic .. | .guid .. | .reference _ => false

/-- Whether one of some expressions is a block. -/
def anyBlock : List Expr → Bool
  | [] => false
  | e :: rest => isBlock e || anyBlock rest

/-- Whether an expression is there and is a block. -/
def isBlock? : Option Expr → Bool
  | none => false
  | some e => isBlock e

end

mutual

/-- A type. -/
def type : TypeRef → String
  | ⟨name, _, [], _⟩ => name.text
  | ⟨name, _, params, _⟩ => name.text ++ "<" ++ types params ++ ">"

/-- Types with commas between them. -/
def types : List TypeRef → String
  | [] => ""
  | [t] => type t
  | t :: rest => type t ++ ", " ++ types rest

end

/-- The signs between the name of a member and its value. -/
def memberSigns (type? : Option TypeRef) (hasValue legacyColon : Bool) : String :=
  if legacyColon then " : ="
  else
    (match type? with
      | some t => " : " ++ type t
      | none => "") ++ (if hasValue then " =" else "")

/-- What separates two elements of a list. -/
def comma (block : Bool) : String := if block then "," else ", "

/-- A list: brackets around its elements, the closing one on a line of its own if `block`. -/
def brackets (m : Margin) (block : Bool) (elements : String) : String :=
  "[" ++ elements ++ m.lead block ++ "]"

/-- The parameters of a template, given one to a line. -/
def paramList (m : Margin) (empty : Bool) (lines : String) : String :=
  if empty then " []" else m.newline ++ "[" ++ lines ++ m.newline ++ "]"

/-- The entries of an object, given one to a line. -/
def entryList (m : Margin) (empty : Bool) (lines : String) : String :=
  if empty then "()" else m.newline ++ "(" ++ lines ++ m.newline ++ ")"

mutual

/-- An expression. -/
def expr (m : Margin) : Expr → String
  | .nil _ => "nil"
  | .bool value _ => if value then "true" else "false"
  | .number _ text _ => text
  | .string quote raw _ => String.ofList (quote.char :: raw.toList ++ [quote.char])
  | .object o => object m o
  | .vector name _ items _ _ =>
    name.text ++
      brackets m (anyBlock items) (elements (m.inside (anyBlock items)) (anyBlock items) items)
  | .list items _ _ =>
    brackets m (anyBlock items) (elements (m.inside (anyBlock items)) (anyBlock items) items)
  | .map keyword pairs _ =>
    keyword.text ++
      brackets m (anyBlock pairs) (elements (m.inside (anyBlock pairs)) (anyBlock pairs) pairs)
  | .pair left right _ => "(" ++ expr m left ++ ", " ++ expr m right ++ ")"
  | .unary op operand _ => op.sign ++ expr m operand
  | .binary op left right _ => expr m left ++ " " ++ op.sign ++ " " ++ expr m right
  | .ternary condition yes no _ =>
    expr m condition ++ " ? " ++ expr m yes ++ " : " ++ expr m no
  | .group inner _ => "(" ++ expr? m inner ++ ")"
  | .generic name index _ => "<" ++ name.text ++ ">" ++ index? m index
  | .guid raw _ => "GUID:\x7b" ++ raw ++ "\x7d"
  | .reference r => reference m r
  | .assignment a => assignment m a
  | .visibility v => visibility m v
  | .error e => e.text

/-- Elements with commas between them, each on a line of its own if `block`. -/
def elements (m : Margin) (block : Bool) : List Expr → String
  | [] => ""
  | [e] => m.lead block ++ expr m e
  | e :: rest => m.lead block ++ expr m e ++ comma block ++ elements m block rest

/-- An expression that may be missing. -/
def expr? (m : Margin) : Option Expr → String
  | none => ""
  | some e => expr m e

/-- An index that may be missing. -/
def index? (m : Margin) : Option Expr → String
  | none => ""
  | some e => "[" ++ expr m e ++ "]"

/-- A reference. -/
def reference (m : Margin) : Reference → String
  | ⟨scope, segs, _⟩ => Reference.scopeText scope ++ segments m none segs

/-- The steps of a reference; `before` is the kind of the last name written. -/
def segments (m : Margin) (before : Option SegmentKind) : List Segment → String
  | [] => ""
  | .name name kind :: rest =>
    Reference.joiner before ++ name.text ++ segments m (some kind) rest
  | .index e :: rest => "[" ++ expr m e ++ "]" ++ segments m before rest

/-- An assignment. -/
def assignment (m : Margin) : Assignment → String
  | ⟨name, value, _⟩ => name.text ++ " is " ++ expr m value

/-- A declaration. -/
def declaration (m : Margin) : Declaration → String
  | .assignment a => assignment m a
  | .template t => template m t

/-- A declaration behind its modifier. -/
def visibility (m : Margin) : Visibility → String
  | ⟨_, keyword, decl, _⟩ => keyword.text ++ " " ++ declaration m decl

/-- A template. -/
def template (m : Margin) : Template → String
  | ⟨name, params, body, _⟩ =>
    "template " ++ name.text ++ paramList m params.isEmpty (paramLines m.deeper params) ++
      m.newline ++ "is " ++ object m body

/-- Parameters one to a line. -/
def paramLines (m : Margin) : List Member → String
  | [] => ""
  | [p] => m.newline ++ member m p
  | p :: ps => m.newline ++ member m p ++ "," ++ paramLines m ps

/-- A member. -/
def member (m : Margin) : Member → String
  | ⟨name, type?, value, legacyColon, _⟩ =>
    name.text ++ memberSigns type? value.isSome legacyColon ++ memberValue m value

/-- The value of a member behind its sign. -/
def memberValue (m : Margin) : Option Expr → String
  | none => ""
  | some e => " " ++ expr m e

/-- An entry of an object. -/
def entry (m : Margin) : Entry → String
  | .member mem => member m mem
  | .assignment a => assignment m a
  | .visibility v => visibility m v
  | .reference r => reference m r
  | .error e => e.text

/-- Entries one to a line. -/
def entryLines (m : Margin) : List Entry → String
  | [] => ""
  | e :: rest => m.newline ++ entry m e ++ entryLines m rest

/-- An object. -/
def object (m : Margin) : Object → String
  | ⟨typeName, entries, _⟩ =>
    typeName.text ++ entryList m entries.isEmpty (entryLines m.deeper entries)

end

/-- An item. -/
def item (m : Margin) : Item → String
  | .assignment a => assignment m a
  | .visibility v => visibility m v
  | .template t => template m t
  | .unnamed u => "unnamed " ++ object m u.object
  | .member mem => member m mem
  | .expr e => expr m e
  | .error e => e.text

end Layout

/-- The canonical text of a document. -/
def Document.format (style : Style) (d : Document) : String :=
  match d.items with
  | [] => ""
  | items =>
    String.intercalate (if style.blankLine then "\n\n" else "\n")
      (items.map (Layout.item ⟨style.indentWidth, 0⟩)) ++ "\n"

/-- The canonical text of an expression. -/
def Expr.format (e : Expr) : String := Layout.expr ⟨Style.indentWidth {}, 0⟩ e

end Ndf
