/-
# Canonical text without places

Canonical text does not depend on the places of a tree and on its stray commas: a relabelled tree is
laid out as the tree itself (`expr_relabel`, `item_relabel`).  So two trees that are the same
without them have the same canonical text.
-/

import Ndf.Proofs.Tree.Relabel
import Ndf.Tree.Layout

namespace Ndf
namespace Layout

variable (r : Relabel)

mutual

/-- Whether a list is written on several lines does not depend on places. -/
theorem isBlock_relabel : ∀ e, isBlock (r.expr e) = isBlock e
  | .nil _ | .bool .. | .number .. | .string .. | .generic .. | .guid .. | .reference _
  | .visibility _ | .error _ => rfl
  | .object ⟨_, [], _⟩ | .object ⟨_, _ :: _, _⟩ => rfl
  | .vector _ _ items _ _ | .list items _ _ | .map _ items _ => anyBlock_relabel items
  | .pair a b _ | .binary _ a b _ => by
    simp [Relabel.expr, isBlock, isBlock_relabel a, isBlock_relabel b]
  | .unary _ e _ => isBlock_relabel e
  | .ternary c a b _ => by
    simp [Relabel.expr, isBlock, isBlock_relabel c, isBlock_relabel a, isBlock_relabel b]
  | .group inner _ => isBlock?_relabel inner
  | .assignment ⟨_, value, _⟩ => isBlock_relabel value

/-- Nor does it for several expressions. -/
theorem anyBlock_relabel : ∀ es, anyBlock (r.exprs es) = anyBlock es
  | [] => rfl
  | e :: es => by rw [Relabel.exprs, anyBlock, anyBlock, isBlock_relabel e, anyBlock_relabel es]

/-- Nor for one that may be missing. -/
theorem isBlock?_relabel : ∀ e, isBlock? (r.expr? e) = isBlock? e
  | none => rfl
  | some e => isBlock_relabel e

end

mutual

/-- The text of a type does not depend on places. -/
theorem type_relabel : ∀ t, type (r.type t) = type t
  | ⟨_, _, [], _⟩ => rfl
  | ⟨name, _, t :: ts, _⟩ => by
    show name.text ++ "<" ++ types (r.types (t :: ts)) ++ ">" = _
    rw [types_relabel (t :: ts)]
    rfl

/-- Nor does that of several. -/
theorem types_relabel : ∀ ts, types (r.types ts) = types ts
  | [] => rfl
  | [t] => type_relabel t
  | t :: u :: ts => by
    show type (r.type t) ++ ", " ++ types (r.types (u :: ts)) = _
    rw [type_relabel t, types_relabel (u :: ts)]
    rfl

end

mutual

/-- **Canonical text does not depend on places.** -/
theorem expr_relabel (m : Margin) : ∀ e, expr m (r.expr e) = expr m e
  | .nil _ | .bool .. | .number .. | .string .. | .guid .. | .error _ => rfl
  | .object o => object_relabel m o
  | .vector _ _ items _ _ => by
    rw [Relabel.expr, expr, expr, anyBlock_relabel, elements_relabel _ _ items]; rfl
  | .list items _ _ => by
    rw [Relabel.expr, expr, expr, anyBlock_relabel, elements_relabel _ _ items]
  | .map _ pairs _ => by
    rw [Relabel.expr, expr, expr, anyBlock_relabel, elements_relabel _ _ pairs]; rfl
  | .pair a b _ => by rw [Relabel.expr, expr, expr, expr_relabel m a, expr_relabel m b]
  | .unary _ e _ => by rw [Relabel.expr, expr, expr, expr_relabel m e]
  | .binary _ a b _ => by rw [Relabel.expr, expr, expr, expr_relabel m a, expr_relabel m b]
  | .ternary c a b _ => by
    rw [Relabel.expr, expr, expr, expr_relabel m c, expr_relabel m a, expr_relabel m b]
  | .group inner _ => by rw [Relabel.expr, expr, expr, expr?_relabel m inner]
  | .generic _ index _ => by rw [Relabel.expr, expr, expr, index?_relabel m index]; rfl
  | .reference x => reference_relabel m x
  | .assignment a => assignment_relabel m a
  | .visibility v => visibility_relabel m v

/-- Nor does that of the elements of a list, or on its stray commas. -/
theorem elements_relabel (m : Margin) (block : Bool) :
    ∀ es, elements m block (r.exprs es) = elements m block es
  | [] => rfl
  | [e] => by rw [Relabel.exprs, Relabel.exprs, elements, elements, expr_relabel m e]
  | e :: f :: es => by
    show m.lead block ++ expr m (r.expr e) ++ comma block ++
      elements m block (r.exprs (f :: es)) = _
    rw [expr_relabel m e, elements_relabel m block (f :: es)]
    rfl

/-- Nor does that of an expression that may be missing. -/
theorem expr?_relabel (m : Margin) : ∀ e, expr? m (r.expr? e) = expr? m e
  | none => rfl
  | some e => expr_relabel m e

/-- Nor that of an index. -/
theorem index?_relabel (m : Margin) : ∀ e, index? m (r.expr? e) = index? m e
  | none => rfl
  | some e => by rw [Relabel.expr?, index?, index?, expr_relabel m e]

/-- Nor that of a reference. -/
theorem reference_relabel (m : Margin) : ∀ x, reference m (r.reference x) = reference m x
  | ⟨_, segs, _⟩ => by rw [Relabel.reference, reference, reference, segments_relabel m none segs]

/-- Nor that of its segments. -/
theorem segments_relabel (m : Margin) (before : Option SegmentKind) :
    ∀ xs, segments m before (r.segments xs) = segments m before xs
  | [] => rfl
  | .name _ kind :: xs => by
    rw [Relabel.segments, Relabel.segment, segments, segments, segments_relabel m (some kind) xs]
    rfl
  | .index e :: xs => by
    rw [Relabel.segments, Relabel.segment, segments, segments, expr_relabel m e,
      segments_relabel m before xs]

/-- Nor that of an assignment. -/
theorem assignment_relabel (m : Margin) : ∀ a, assignment m (r.assignment a) = assignment m a
  | ⟨_, value, _⟩ => by
    rw [Relabel.assignment, assignment, assignment, expr_relabel m value]; rfl

/-- Nor that of a declaration. -/
theorem declaration_relabel (m : Margin) :
    ∀ d, declaration m (r.declaration d) = declaration m d
  | .assignment a => assignment_relabel m a
  | .template t => template_relabel m t

/-- Nor that of one behind a modifier. -/
theorem visibility_relabel (m : Margin) : ∀ v, visibility m (r.visibility v) = visibility m v
  | ⟨_, _, decl, _⟩ => by
    rw [Relabel.visibility, visibility, visibility, declaration_relabel m decl]; rfl

/-- Nor that of a template. -/
theorem template_relabel (m : Margin) : ∀ t, template m (r.template t) = template m t
  | ⟨_, params, body, _⟩ => by
    rw [Relabel.template, template, template, paramLines_relabel m.deeper params,
      object_relabel m body, Relabel.members_eq_map, List.isEmpty_map]; rfl

/-- Nor that of its parameters. -/
theorem paramLines_relabel (m : Margin) : ∀ ps, paramLines m (r.members ps) = paramLines m ps
  | [] => rfl
  | [p] => by rw [Relabel.members, Relabel.members, paramLines, paramLines, member_relabel m p]
  | p :: q :: ps => by
    show m.newline ++ member m (r.member p) ++ "," ++ paramLines m (r.members (q :: ps)) = _
    rw [member_relabel m p, paramLines_relabel m (q :: ps)]
    rfl

/-- Nor that of a member. -/
theorem member_relabel (m : Margin) : ∀ p, member m (r.member p) = member m p
  | ⟨_, type?, value, _, _⟩ => by
    rw [Relabel.member, member, member, memberValue_relabel m value]
    cases type? <;> cases value <;> simp [memberSigns, Relabel.expr?, Relabel.name, type_relabel]

/-- Nor that of its value. -/
theorem memberValue_relabel (m : Margin) : ∀ e, memberValue m (r.expr? e) = memberValue m e
  | none => rfl
  | some e => by rw [Relabel.expr?, memberValue, memberValue, expr_relabel m e]

/-- Nor that of an entry. -/
theorem entry_relabel (m : Margin) : ∀ e, entry m (r.entry e) = entry m e
  | .member p => member_relabel m p
  | .assignment a => assignment_relabel m a
  | .visibility v => visibility_relabel m v
  | .reference x => reference_relabel m x
  | .error _ => rfl

/-- Nor that of several. -/
theorem entryLines_relabel (m : Margin) : ∀ es, entryLines m (r.entries es) = entryLines m es
  | [] => rfl
  | e :: es => by
    rw [Relabel.entries, entryLines, entryLines, entry_relabel m e, entryLines_relabel m es]

/-- Nor that of an object. -/
theorem object_relabel (m : Margin) : ∀ o, object m (r.object o) = object m o
  | ⟨_, es, _⟩ => by
    rw [Relabel.object, object, object, entryLines_relabel m.deeper es, Relabel.entries_eq_map,
      List.isEmpty_map]; rfl

end

/-- Nor that of an item. -/
theorem item_relabel (m : Margin) : ∀ i, item m (r.item i) = item m i
  | .assignment a => assignment_relabel r m a
  | .visibility v => visibility_relabel r m v
  | .template t => template_relabel r m t
  | .unnamed u => congrArg ("unnamed " ++ ·) (object_relabel r m u.object)
  | .member p => member_relabel r m p
  | .expr e => expr_relabel r m e
  | .error _ => rfl

end Layout

/-- Documents that are the same without places have the same canonical text. -/
theorem Document.format_congr {r : Relabel} {d d' : Document}
    (h : d'.items.map r.item = d.items.map r.item) (style : Style) :
    d'.format style = d.format style := by
  obtain ⟨items, s⟩ := d
  obtain ⟨items', s'⟩ := d'
  have hmap : items'.map (Layout.item ⟨style.indentWidth, 0⟩) =
      items.map (Layout.item ⟨style.indentWidth, 0⟩) := by
    simpa [Function.comp_def, Layout.item_relabel] using
      congrArg (List.map (Layout.item ⟨style.indentWidth, 0⟩)) h
  cases items with
  | nil =>
    obtain rfl : items' = [] := List.map_eq_nil_iff.1 h
    rfl
  | cons i items =>
    cases items' with
    | nil => cases h
    | cons i' items' => exact congrArg (String.intercalate _ · ++ "\n") hmap

end Ndf
