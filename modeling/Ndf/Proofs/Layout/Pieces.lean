/-
# Canonical text, token by token

The canonical text of a tree is put together from pieces: each function of `Layout` has one here
that gives the tokens of what the other writes, with the white space in front of each.  They follow
the tree in the same way, so that the pieces joined are the text is one induction (`join_expr`,
`join_document`).

`blank` is what stands in front of the first token.  A fragment stands for one piece whose kind no
token has, and so does a reference without steps; a document that was read without problems holds
neither.
-/

import Ndf.Proofs.Token.Piece
import Ndf.Tree.Layout

namespace Ndf

/-- The kind of the token of an operator. -/
def BinaryOp.token : BinaryOp → TokenKind
  | .mul => .star
  | .div => .word "div" (.keyword .div)
  | .rem => .percent
  | .add => .plus
  | .sub => .minus
  | .eq => .eqEq
  | .notEq => .notEq
  | .lt => .lt
  | .ltEq => .ltEq
  | .gt => .gt
  | .gtEq => .gtEq
  | .and => .amp
  | .or => .pipe

/-- The kind of the token of an operator. -/
def UnaryOp.token : UnaryOp → TokenKind
  | .neg => .minus
  | .not => .bang

namespace Piece

/-- A word behind some white space. -/
def word (blank : List Char) (text : String) : Piece :=
  ⟨blank, text.toList, .word text (Word.classify text)⟩

/-- A sign of one character behind some white space. -/
def sign (blank : List Char) (c : Char) : Piece := ⟨blank, [c], Lexeme.single c⟩

/-- An operator between its operands. -/
def operator (op : BinaryOp) : Piece := ⟨[' '], op.sign.toList, op.token⟩

end Piece

namespace Layout

open Piece (word sign)

/-- The white space in front of the first element of a list. -/
def Margin.front (m : Margin) (block : Bool) : List Char := (m.lead block).toList

/-- The white space between a comma and the next element. -/
def Margin.gap (m : Margin) (block : Bool) : List Char :=
  if block then m.newline.toList else [' ']

namespace Pieces

mutual

/-- A type. -/
def type (blank : List Char) : TypeRef → List Piece
  | ⟨name, _, [], _⟩ => [word blank name.text]
  | ⟨name, _, t :: rest, _⟩ =>
    word blank name.text :: sign [] '<' :: (type [] t ++ moreTypes rest ++ [sign [] '>'])

/-- Types behind the first one, each with its comma. -/
def moreTypes : List TypeRef → List Piece
  | [] => []
  | t :: rest => sign [] ',' :: (type [' '] t ++ moreTypes rest)

end

/-- The signs between the name of a member and its value. -/
def memberSigns (type? : Option TypeRef) (hasValue legacyColon : Bool) : List Piece :=
  if legacyColon then [sign [' '] ':', sign [' '] '=']
  else
    (match type? with
      | some t => sign [' '] ':' :: type [' '] t
      | none => []) ++ (if hasValue then [sign [' '] '='] else [])

/-- A list. -/
def brackets (m : Margin) (blank : List Char) (block : Bool) (elements : List Piece) : List Piece :=
  sign blank '[' :: (elements ++ [sign (m.front block) ']'])

/-- The parameters of a template. -/
def paramList (m : Margin) (empty : Bool) (lines : List Piece) : List Piece :=
  if empty then [sign [' '] '[', sign [] ']']
  else sign m.newline.toList '[' :: (lines ++ [sign m.newline.toList ']'])

/-- The entries of an object. -/
def entryList (m : Margin) (empty : Bool) (lines : List Piece) : List Piece :=
  if empty then [sign [] '(', sign [] ')']
  else sign m.newline.toList '(' :: (lines ++ [sign m.newline.toList ')'])

/-- A name of a reference, with the sign that joins it to the names before it. -/
def joined (blank : List Char) (before : Option SegmentKind) (name : Name) : List Piece :=
  match before with
  | none => [word blank name.text]
  | some .member => [sign blank '.', word [] name.text]
  | some _ => [sign blank '/', word [] name.text]

mutual

/-- An expression. -/
def expr (m : Margin) (blank : List Char) : Expr → List Piece
  | .nil _ => [word blank "nil"]
  | .bool value _ => [word blank (if value then "true" else "false")]
  | .number kind text _ => [⟨blank, text.toList, .number kind text⟩]
  | .string quote raw _ => [⟨blank, quote.char :: raw.toList ++ [quote.char], .string quote raw⟩]
  | .object o => object m blank o
  | .vector name _ items _ _ =>
    word blank name.text :: brackets m [] (anyBlock items)
      (elements (m.inside (anyBlock items)) (anyBlock items) items)
  | .list items _ _ =>
    brackets m blank (anyBlock items)
      (elements (m.inside (anyBlock items)) (anyBlock items) items)
  | .map keyword pairs _ =>
    word blank keyword.text :: brackets m [] (anyBlock pairs)
      (elements (m.inside (anyBlock pairs)) (anyBlock pairs) pairs)
  | .pair left right _ =>
    sign blank '(' :: (expr m [] left ++ sign [] ',' :: (expr m [' '] right ++ [sign [] ')']))
  | .unary op operand _ => ⟨blank, op.sign.toList, op.token⟩ :: expr m [] operand
  | .binary op left right _ => expr m blank left ++ .operator op :: expr m [' '] right
  | .ternary condition yes no _ =>
    expr m blank condition ++
      sign [' '] '?' :: (expr m [' '] yes ++ sign [' '] ':' :: expr m [' '] no)
  | .group inner _ => sign blank '(' :: (expr? m inner ++ [sign [] ')'])
  | .generic name index _ => sign blank '<' :: word [] name.text :: sign [] '>' :: index? m index
  | .guid raw _ =>
    [word blank "GUID", sign [] ':', ⟨[], '\x7b' :: raw.toList ++ ['\x7d'], .guidBody raw⟩]
  | .reference r => reference m blank r
  | .assignment a => assignment m blank a
  | .visibility v => visibility m blank v
  | .error e => [⟨blank, e.text.toList, .eof⟩]

/-- Elements with commas between them. -/
def elements (m : Margin) (block : Bool) : List Expr → List Piece
  | [] => []
  | e :: rest => expr m (m.front block) e ++ more m block rest

/-- Elements behind the first one, each with its comma. -/
def more (m : Margin) (block : Bool) : List Expr → List Piece
  | [] => []
  | e :: rest => sign [] ',' :: (expr m (m.gap block) e ++ more m block rest)

/-- An expression that may be missing. -/
def expr? (m : Margin) : Option Expr → List Piece
  | none => []
  | some e => expr m [] e

/-- An index that may be missing. -/
def index? (m : Margin) : Option Expr → List Piece
  | none => []
  | some e => sign [] '[' :: (expr m [] e ++ [sign [] ']'])

/-- A reference. -/
def reference (m : Margin) (blank : List Char) : Reference → List Piece
  | ⟨scope, segs, _⟩ =>
    match scope.mark with
    | some c => sign blank c :: sign [] '/' :: segments m none [] segs
    | none => if segs.isEmpty then [⟨blank, [], .eof⟩] else segments m none blank segs

/-- The steps of a reference; `before` is the kind of the last name. -/
def segments (m : Margin) (before : Option SegmentKind) (blank : List Char) :
    List Segment → List Piece
  | [] => []
  | .name name kind :: rest => joined blank before name ++ segments m (some kind) [] rest
  | .index e :: rest =>
    sign blank '[' :: (expr m [] e ++ sign [] ']' :: segments m before [] rest)

/-- An assignment. -/
def assignment (m : Margin) (blank : List Char) : Assignment → List Piece
  | ⟨name, value, _⟩ => word blank name.text :: word [' '] "is" :: expr m [' '] value

/-- A declaration. -/
def declaration (m : Margin) (blank : List Char) : Declaration → List Piece
  | .assignment a => assignment m blank a
  | .template t => template m blank t

/-- A declaration behind its modifier. -/
def visibility (m : Margin) (blank : List Char) : Visibility → List Piece
  | ⟨_, keyword, decl, _⟩ => word blank keyword.text :: declaration m [' '] decl

/-- A template. -/
def template (m : Margin) (blank : List Char) : Template → List Piece
  | ⟨name, params, body, _⟩ =>
    word blank "template" :: word [' '] name.text ::
      (paramList m params.isEmpty (paramLines m.deeper params) ++
        word m.newline.toList "is" :: object m [' '] body)

/-- Parameters one to a line. -/
def paramLines (m : Margin) : List Member → List Piece
  | [] => []
  | p :: ps => member m m.newline.toList p ++ moreParams m ps

/-- Parameters behind the first one, each with its comma. -/
def moreParams (m : Margin) : List Member → List Piece
  | [] => []
  | p :: ps => sign [] ',' :: (member m m.newline.toList p ++ moreParams m ps)

/-- A member. -/
def member (m : Margin) (blank : List Char) : Member → List Piece
  | ⟨name, type?, value, legacyColon, _⟩ =>
    word blank name.text ::
      (memberSigns type? value.isSome legacyColon ++ memberValue m value)

/-- The value of a member behind its sign. -/
def memberValue (m : Margin) : Option Expr → List Piece
  | none => []
  | some e => expr m [' '] e

/-- An entry of an object. -/
def entry (m : Margin) (blank : List Char) : Entry → List Piece
  | .member mem => member m blank mem
  | .assignment a => assignment m blank a
  | .visibility v => visibility m blank v
  | .reference r => reference m blank r
  | .error e => [⟨blank, e.text.toList, .eof⟩]

/-- Entries one to a line. -/
def entryLines (m : Margin) : List Entry → List Piece
  | [] => []
  | e :: rest => entry m m.newline.toList e ++ entryLines m rest

/-- An object. -/
def object (m : Margin) (blank : List Char) : Object → List Piece
  | ⟨typeName, entries, _⟩ =>
    word blank typeName.text :: entryList m entries.isEmpty (entryLines m.deeper entries)

end

/-- Elements with commas between them, the first one behind some white space. -/
def laid (m : Margin) (block : Bool) (blank : List Char) : List Expr → List Piece
  | [] => []
  | e :: rest => expr m blank e ++ more m block rest

/-- Elements are laid out with the front of a list in front of the first and a gap before the
others. -/
theorem elements_eq (m : Margin) (block : Bool) (es : List Expr) :
    elements m block es = laid m block (m.front block) es := by
  cases es <;> rfl

/-- An item. -/
def item (m : Margin) (blank : List Char) : Item → List Piece
  | .assignment a => assignment m blank a
  | .visibility v => visibility m blank v
  | .template t => template m blank t
  | .unnamed u => word blank "unnamed" :: object m [' '] u.object
  | .member mem => member m blank mem
  | .expr e => expr m blank e
  | .error e => [⟨blank, e.text.toList, .eof⟩]

/-- Items behind each other, with `between` in front of each but the first. -/
def items (m : Margin) (between blank : List Char) : List Item → List Piece
  | [] => []
  | i :: rest => item m blank i ++ items m between between rest

end Pieces

/-! ### The pieces joined are the text -/

open Piece (join)

@[simp] theorem written_word (blank : List Char) (text : String) :
    (word blank text).written = blank ++ text.toList := rfl

@[simp] theorem written_sign (blank : List Char) (c : Char) :
    (sign blank c).written = blank ++ [c] := rfl

@[simp] theorem written_operator (op : BinaryOp) :
    (Piece.operator op).written = ' ' :: op.sign.toList := rfl

@[simp] theorem written_mk (blank text : List Char) (kind : TokenKind) :
    (Piece.mk blank text kind).written = blank ++ text := rfl

namespace Pieces

variable (m : Margin)

mutual

/-- The pieces of a type joined are its text. -/
theorem join_type (blank : List Char) :
    ∀ t, join (type blank t) = blank ++ (Layout.type t).toList
  | ⟨name, _, [], _⟩ => by simp [type, Layout.type]
  | ⟨name, _, t :: rest, _⟩ => by
    simp [type, Layout.type, join_type [] t, join_moreTypes rest t]

/-- Those of further parameters are the rest of theirs. -/
theorem join_moreTypes :
    ∀ ts t, (Layout.types (t :: ts)).toList = (Layout.type t).toList ++ join (moreTypes ts)
  | [], t => by simp [moreTypes, Layout.types]
  | u :: rest, t => by
    simp [moreTypes, Layout.types, join_type [' '] u, join_moreTypes rest u]

end

/-- Those between the name of a member and its value are what is written there. -/
theorem join_memberSigns (type? : Option TypeRef) (hasValue legacyColon : Bool) :
    join (memberSigns type? hasValue legacyColon) =
      (Layout.memberSigns type? hasValue legacyColon).toList := by
  cases legacyColon <;> cases type? <;> cases hasValue <;>
    simp [memberSigns, Layout.memberSigns, join_type]

/-- Brackets around pieces are brackets around their text. -/
theorem join_brackets (blank : List Char) (block : Bool) (elements : List Piece) (text : String)
    (h : join elements = text.toList) :
    join (brackets m blank block elements) = blank ++ (Layout.brackets m block text).toList := by
  simp [brackets, Layout.brackets, h, Margin.front]

/-- So it is with the brackets of parameters. -/
theorem join_paramList (empty : Bool) (lines : List Piece) (text : String)
    (h : join lines = text.toList) :
    join (paramList m empty lines) = (Layout.paramList m empty text).toList := by
  cases empty <;> simp [paramList, Layout.paramList, h]

/-- And with the parentheses of entries. -/
theorem join_entryList (empty : Bool) (lines : List Piece) (text : String)
    (h : join lines = text.toList) :
    join (entryList m empty lines) = (Layout.entryList m empty text).toList := by
  cases empty <;> simp [entryList, Layout.entryList, h]

/-- A step of a path is its sign and its name. -/
theorem join_joined (blank : List Char) (before : Option SegmentKind) (name : Name) :
    join (joined blank before name) =
      blank ++ (Reference.joiner before ++ name.text).toList := by
  rcases before with _ | _ | _ | _ <;> simp [joined, Reference.joiner]

mutual

/-- The pieces of an expression joined are its text, behind the white space asked for. -/
theorem join_expr (m : Margin) (blank : List Char) :
    ∀ e, join (expr m blank e) = blank ++ (Layout.expr m e).toList
  | .nil _ => by simp [expr, Layout.expr]
  | .bool value _ => by cases value <;> simp [expr, Layout.expr]
  | .number .. | .string .. => by simp [expr, Layout.expr]
  | .object o => by simp [expr, Layout.expr, join_object m blank o]
  | .vector _ _ items _ _ => by
    simp [expr, Layout.expr, join_brackets m _ _ _ _ (join_elements _ _ items)]
  | .list items _ _ => by
    simp [expr, Layout.expr, join_brackets m _ _ _ _ (join_elements _ _ items)]
  | .map _ pairs _ => by
    simp [expr, Layout.expr, join_brackets m _ _ _ _ (join_elements _ _ pairs)]
  | .pair l r _ => by simp [expr, Layout.expr, join_expr m [] l, join_expr m [' '] r]
  | .unary _ e _ => by simp [expr, Layout.expr, join_expr m [] e]
  | .binary _ l r _ => by simp [expr, Layout.expr, join_expr m blank l, join_expr m [' '] r]
  | .ternary c y n _ => by
    simp [expr, Layout.expr, join_expr m blank c, join_expr m [' '] y, join_expr m [' '] n]
  | .group inner _ => by simp [expr, Layout.expr, join_expr? m inner]
  | .generic _ index _ => by simp [expr, Layout.expr, join_index? m index]
  | .guid .. => by simp [expr, Layout.expr]
  | .reference r => by simp [expr, Layout.expr, join_reference m blank r]
  | .assignment a => by simp [expr, Layout.expr, join_assignment m blank a]
  | .visibility v => by simp [expr, Layout.expr, join_visibility m blank v]
  | .error _ => by simp [expr, Layout.expr]

/-- Those of the elements of a list are theirs. -/
theorem join_elements (m : Margin) (block : Bool) :
    ∀ es, join (elements m block es) = (Layout.elements m block es).toList
  | [] => by simp [elements, Layout.elements]
  | e :: es => by
    rw [join_more m block es e, elements, Piece.join_append, join_expr m _ e, Margin.front]

/-- Those of further elements are the rest of theirs. -/
theorem join_more (m : Margin) (block : Bool) : ∀ es e, (Layout.elements m block (e :: es)).toList =
    (m.lead block).toList ++ (Layout.expr m e).toList ++ join (more m block es)
  | [], e => by simp [more, Layout.elements]
  | f :: es, e => by
    cases block <;>
      simp [more, Layout.elements, join_expr m _ f, join_more m _ es f, Layout.comma, Margin.lead,
        Margin.gap]

/-- Those of an expression that may be missing are its text. -/
theorem join_expr? (m : Margin) : ∀ e, join (expr? m e) = (Layout.expr? m e).toList
  | none => by simp [expr?, Layout.expr?]
  | some e => by simp [expr?, Layout.expr?, join_expr m [] e]

/-- So are those of an index. -/
theorem join_index? (m : Margin) : ∀ e, join (index? m e) = (Layout.index? m e).toList
  | none => by simp [index?, Layout.index?]
  | some e => by simp [index?, Layout.index?, join_expr m [] e]

/-- So are those of a reference. -/
theorem join_reference (m : Margin) (blank : List Char) :
    ∀ r, join (reference m blank r) = blank ++ (Layout.reference m r).toList
  | ⟨.none, [], _⟩ => by
    simp [reference, Layout.reference, Layout.segments, Reference.scopeText, Scope.mark]
  | ⟨.none, x :: xs, _⟩ => by
    have := join_segments m none blank (x :: xs) (.inl (List.cons_ne_nil x xs))
    simp [reference, Layout.reference, Reference.scopeText, Scope.mark, this]
  | ⟨.current, segs, _⟩ | ⟨.root, segs, _⟩ | ⟨.global, segs, _⟩ => by
    simp [reference, Layout.reference, Reference.scopeText, Scope.mark, join_segments m none _ segs]

/-- So are those of its segments. -/
theorem join_segments (m : Margin) (before : Option SegmentKind) (blank : List Char) : ∀ xs,
    xs ≠ [] ∨ blank = [] →
      join (segments m before blank xs) = blank ++ (Layout.segments m before xs).toList
  | [], h => by simp [segments, Layout.segments, h.resolve_left]
  | .name _ kind :: xs, _ => by
    simp [segments, Layout.segments, join_joined, join_segments m (some kind) [] xs]
  | .index e :: xs, _ => by
    simp [segments, Layout.segments, join_expr m [] e, join_segments m before [] xs]

/-- So are those of an assignment. -/
theorem join_assignment (m : Margin) (blank : List Char) :
    ∀ a, join (assignment m blank a) = blank ++ (Layout.assignment m a).toList
  | ⟨_, value, _⟩ => by simp [assignment, Layout.assignment, join_expr m [' '] value]

/-- So are those of a declaration. -/
theorem join_declaration (m : Margin) (blank : List Char) :
    ∀ d, join (declaration m blank d) = blank ++ (Layout.declaration m d).toList
  | .assignment a => by simp [declaration, Layout.declaration, join_assignment m blank a]
  | .template t => by simp [declaration, Layout.declaration, join_template m blank t]

/-- So are those of one behind a modifier. -/
theorem join_visibility (m : Margin) (blank : List Char) :
    ∀ v, join (visibility m blank v) = blank ++ (Layout.visibility m v).toList
  | ⟨_, _, decl, _⟩ => by simp [visibility, Layout.visibility, join_declaration m [' '] decl]

/-- So are those of a template. -/
theorem join_template (m : Margin) (blank : List Char) :
    ∀ t, join (template m blank t) = blank ++ (Layout.template m t).toList
  | ⟨_, params, body, _⟩ => by
    simp [template, Layout.template, join_object m [' '] body,
      join_paramList m _ _ _ (join_paramLines m.deeper params)]

/-- So are those of its parameters. -/
theorem join_paramLines (m : Margin) :
    ∀ ps, join (paramLines m ps) = (Layout.paramLines m ps).toList
  | [] => by simp [paramLines, Layout.paramLines]
  | p :: ps => by rw [join_moreParams m ps p, paramLines, Piece.join_append, join_member m _ p]

/-- Those of further parameters are the rest of theirs. -/
theorem join_moreParams (m : Margin) : ∀ ps p, (Layout.paramLines m (p :: ps)).toList =
    m.newline.toList ++ (Layout.member m p).toList ++ join (moreParams m ps)
  | [], p => by simp [moreParams, Layout.paramLines]
  | q :: ps, p => by
    simp [moreParams, Layout.paramLines, join_member m _ q, join_moreParams m ps q]

/-- Those of a member are its text. -/
theorem join_member (m : Margin) (blank : List Char) :
    ∀ p, join (member m blank p) = blank ++ (Layout.member m p).toList
  | ⟨_, type?, value, legacyColon, _⟩ => by
    simp [member, Layout.member, join_memberSigns, join_memberValue m value]

/-- So are those of its value. -/
theorem join_memberValue (m : Margin) :
    ∀ e, join (memberValue m e) = (Layout.memberValue m e).toList
  | none => by simp [memberValue, Layout.memberValue]
  | some e => by simp [memberValue, Layout.memberValue, join_expr m [' '] e]

/-- So are those of an entry. -/
theorem join_entry (m : Margin) (blank : List Char) :
    ∀ e, join (entry m blank e) = blank ++ (Layout.entry m e).toList
  | .member p => by simp [entry, Layout.entry, join_member m blank p]
  | .assignment a => by simp [entry, Layout.entry, join_assignment m blank a]
  | .visibility v => by simp [entry, Layout.entry, join_visibility m blank v]
  | .reference r => by simp [entry, Layout.entry, join_reference m blank r]
  | .error _ => by simp [entry, Layout.entry]

/-- So are those of entries, each on a line. -/
theorem join_entryLines (m : Margin) :
    ∀ es, join (entryLines m es) = (Layout.entryLines m es).toList
  | [] => by simp [entryLines, Layout.entryLines]
  | e :: es => by simp [entryLines, Layout.entryLines, join_entry m _ e, join_entryLines m es]

/-- So are those of an object. -/
theorem join_object (m : Margin) (blank : List Char) :
    ∀ o, join (object m blank o) = blank ++ (Layout.object m o).toList
  | ⟨_, entries, _⟩ => by
    simp [object, Layout.object, join_entryList m _ _ _ (join_entryLines m.deeper entries)]

end

/-- So are those of an item. -/
theorem join_item (blank : List Char) :
    ∀ i, join (item m blank i) = blank ++ (Layout.item m i).toList
  | .assignment a => by simp [item, Layout.item, join_assignment]
  | .visibility v => by simp [item, Layout.item, join_visibility]
  | .template t => by simp [item, Layout.item, join_template]
  | .unnamed u => by simp [item, Layout.item, join_object]
  | .member p => by simp [item, Layout.item, join_member]
  | .expr e => by simp [item, Layout.item, join_expr]
  | .error _ => by simp [item, Layout.item]

/-- So are those of the items of a document, with what stands between two. -/
theorem join_items (between : String) : ∀ (is : List Item) (blank : List Char), is ≠ [] →
    join (items m between.toList blank is) =
      blank ++ (between.intercalate (is.map (Layout.item m))).toList
  | [i], blank, _ => by simp [items, join_item]
  | i :: j :: is, blank, _ => by
    rw [items, Piece.join_append, join_item, join_items between (j :: is) _ (List.cons_ne_nil _ _)]
    simp

end Pieces

/-- The margin of the items of a document. -/
def outermost (style : Style) : Margin := ⟨style.indentWidth, 0⟩

/-- What stands between two items. -/
def between (style : Style) : String := if style.blankLine then "\n\n" else "\n"

end Layout

/-- The canonical text of a document, token by token. -/
def Document.pieces (style : Style) (d : Document) : List Piece :=
  Layout.Pieces.items (Layout.outermost style) (Layout.between style).toList [] d.items

/-- **The canonical text of a document is its pieces joined**, with a line break behind them. -/
theorem Document.join_pieces (style : Style) (d : Document) : (d.format style).toList =
    Piece.join (d.pieces style) ++ (if d.items = [] then [] else ['\n']) := by
  rw [pieces, format]
  split
  · rename_i h
    rw [h]
    rfl
  · rename_i items h
    rw [if_neg h, Layout.Pieces.join_items _ _ _ _ h, List.nil_append, String.toList_append]
    rfl

end Ndf
