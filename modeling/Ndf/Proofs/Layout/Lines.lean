/-
# Expressions on several lines

`SPEC_FULL.md` E6, the canonical text.

`Layout.isBlock` tells a list whether to give each of its elements a line of its own.  It asks
whether an element is written on several lines, and it does not look everywhere: it passes over
indexes, strings and payloads.  `Layout.breaks` does look everywhere and is exact
(`Layout.expr_told`), so where the two differ something is hidden from the first
(`Part.Hides`).

`parse_lines` says so of all expressions of a document, and `parse_lines_index` is a list written on
one line with an element that takes several.
-/

import Ndf.Proofs.Form.Operators
import Ndf.Proofs.Parser.Tidy
import Ndf.Proofs.Tree.Met
import Ndf.Tree.Layout

namespace Ndf

namespace Layout

mutual

/-- Whether an expression is written on several lines. -/
def breaks : Expr → Bool
  | .nil _ | .bool .. | .number .. => false
  | .string _ raw _ | .guid raw _ => raw.toList.contains '\n'
  | .object ⟨_, entries, _⟩ => !entries.isEmpty
  | .vector _ _ items _ _ | .list items _ _ | .map _ items _ => anyBlock items || anyBreaks items
  | .pair left right _ | .binary _ left right _ => breaks left || breaks right
  | .unary _ operand _ => breaks operand
  | .ternary condition yes no _ => breaks condition || breaks yes || breaks no
  | .group inner _ => breaks? inner
  | .generic _ index _ => breaks? index
  | .reference ⟨_, segs, _⟩ => breaksIn segs
  | .assignment ⟨_, value, _⟩ => breaks value
  | .visibility ⟨_, _, .assignment ⟨_, value, _⟩, _⟩ => breaks value
  | .visibility ⟨_, _, .template _, _⟩ => true
  | .error e => e.text.toList.contains '\n'

/-- Whether one of some expressions is. -/
def anyBreaks : List Expr → Bool
  | [] => false
  | e :: rest => breaks e || anyBreaks rest

/-- Whether an expression is there and is. -/
def breaks? : Option Expr → Bool
  | none => false
  | some e => breaks e

/-- Whether one of the indexes among some segments is. -/
def breaksIn : List Segment → Bool
  | [] => false
  | .name .. :: rest => breaksIn rest
  | .index e :: rest => breaks e || breaksIn rest

end

end Layout

/-- The names and numbers among some parts are on one line. -/
def Part.Plain : Part → Prop
  | .name n => OneLine n.text
  | .expr (.number _ text _) => OneLine text
  | _ => True

namespace Layout

/-- Whether a text is on several lines is told by `b`. -/
def Told (text : String) (b : Bool) : Prop := '\n' ∈ text.toList ↔ b = true

namespace Told

variable {s t : String} {a b : Bool}

/-- A text of one line does not break. -/
theorem line (h : OneLine s) : Told s false := ⟨fun hs => absurd hs h, fun hf => nomatch hf⟩

/-- Two texts break if one of them does. -/
theorem append (hs : Told s a) (ht : Told t b) : Told (s ++ t) (a || b) := by
  rw [Told, String.toList_append, List.mem_append, Bool.or_eq_true]
  exact or_congr hs ht

/-- With something on one line in front. -/
theorem before (ht : Told t b) (hs : OneLine s) : Told (s ++ t) b := (line hs).append ht

/-- With something on one line behind. -/
theorem behind (ht : Told t b) (hs : OneLine s) : Told (t ++ s) b := by
  simpa using ht.append (line hs)

/-- A text with a line feed breaks. -/
theorem broken (h : '\n' ∈ s.toList) : Told s true := by
  simpa [Told] using h

end Told

/-- A line break holds a line feed. -/
theorem mem_newline (m : Margin) : '\n' ∈ m.newline.toList := by
  simp [Margin.newline]

/-- In a list of several lines each element stands behind a line break. -/
theorem lead_told (m : Margin) (block : Bool) : Told (m.lead block) block := by
  cases block with
  | false => exact (.line (by decide) : Told "" false)
  | true => exact .broken (mem_newline m)

/-- What joins two segments is on one line. -/
theorem oneLine_joiner (before : Option SegmentKind) : OneLine (Reference.joiner before) := by
  rcases before with _ | _ | _ | _ <;> decide

/-- So is the sign of a scope. -/
theorem oneLine_scopeText (scope : Scope) : OneLine (Reference.scopeText scope) := by
  cases scope <;> decide

/-- So is a comma. -/
theorem oneLine_comma (block : Bool) : OneLine (comma block) := by
  cases block <;> decide

/-- So is an operator. -/
theorem oneLine_sign (op : BinaryOp) : OneLine op.sign := by
  cases op <;> decide

/-- Between two marks only the raw body can have a line break. -/
theorem string_told (quote : Quote) (raw : String) :
    Told (String.ofList (quote.char :: raw.toList ++ [quote.char])) (raw.toList.contains '\n') := by
  cases quote <;> simp [Told, Quote.char]

/-- A text that is written as it is breaks if it holds a line feed. -/
theorem text_told (text : String) : Told text (text.toList.contains '\n') := by
  simp [Told]

/-- Elements that all stand on lines of their own are in brackets that do. -/
theorem items_told {m : Margin} {items : List Expr} (h : Told
    (elements (m.inside (anyBlock items)) (anyBlock items) items)
    (anyBlock items && !items.isEmpty || anyBreaks items)) :
    Told (brackets m (anyBlock items) (elements (m.inside (anyBlock items)) (anyBlock items) items))
      (anyBlock items || anyBreaks items) := by
  have hwhole := ((h.before (show OneLine "[" by decide)).append
    (lead_told m (anyBlock items))).behind (show OneLine "]" by decide)
  cases hblock : anyBlock items with
  | false => simpa [brackets, hblock] using hwhole
  | true => simpa [brackets, hblock] using hwhole

/-- An object takes several lines just if it has entries. -/
theorem object_told (m : Margin) {n : Name} (hn : OneLine n.text) (entries : List Entry)
    (s : Span) : Told (object m ⟨n, entries, s⟩) (!entries.isEmpty) := by
  refine .before ?_ hn
  cases entries with
  | nil => exact (.line (by decide) : Told "()" false)
  | cons e entries => exact .broken (by simp [entryList, mem_newline])

/-- A template always does. -/
theorem template_told (m : Margin) (t : Template) : Told (template m t) true := by
  obtain ⟨n, params, body, s⟩ := t
  exact .broken (by simp [template, mem_newline])

/-- An assignment does if its value does. -/
theorem assignment_told (m : Margin) {n : Name} {value : Expr} {b : Bool} (hn : OneLine n.text)
    (s : Span) (hv : Told (expr m value) b) : Told (assignment m ⟨n, value, s⟩) b :=
  hv.before (hn.append (by decide))

/-- The parts of a node below it are plain. -/
theorem plain_below {p : Part} {below : List Part} (h : ∀ q ∈ p :: below, q.Plain) :
    ∀ q ∈ below, q.Plain := (List.forall_mem_cons.1 h).2

/-- The parts of two lists are plain apart. -/
theorem plain_append {a b : List Part} (h : ∀ q ∈ a ++ b, q.Plain) :
    (∀ q ∈ a, q.Plain) ∧ ∀ q ∈ b, q.Plain := List.forall_mem_append.1 h

mutual

/-- An expression takes several lines just if `breaks` says so. -/
theorem expr_told (m : Margin) : ∀ e, (∀ p ∈ Parts.expr e, p.Plain) →
    Told (expr m e) (breaks e)
  | .nil _, _ => (.line (by decide) : Told "nil" false)
  | .bool true _, _ => (.line (by decide) : Told "true" false)
  | .bool false _, _ => (.line (by decide) : Told "false" false)
  | .number _ text _, h => .line (h _ (List.mem_singleton_self _))
  | .string quote raw _, _ => string_told quote raw
  | .guid raw _, _ => ((text_told raw).before (by decide)).behind (by decide)
  | .object ⟨n, entries, s⟩, h => object_told m (h (.name n) (by simp [Parts.expr, Parts.object]))
      entries s
  | .vector n _ items _ _, h =>
    (items_told (elements_told _ _ items (plain_below (plain_below h)))).before
      (h (.name n) (by simp [Parts.expr]))
  | .list items _ _, h => items_told (elements_told _ _ items (plain_below h))
  | .map n pairs _, h =>
    (items_told (elements_told _ _ pairs (plain_below (plain_below h)))).before
      (h (.name n) (by simp [Parts.expr]))
  | .pair l r _, h => by
    obtain ⟨hl, hr⟩ := plain_append (plain_below h)
    have hleft := ((expr_told m l hl).before (show OneLine "(" by decide)).behind
      (show OneLine ", " by decide)
    exact (hleft.append (expr_told m r hr)).behind (by decide)
  | .unary op e _, h => (expr_told m e (plain_below h)).before (by cases op <;> decide)
  | .binary op l r _, h => by
    obtain ⟨hl, hr⟩ := plain_append (plain_below h)
    have hleft := (((expr_told m l hl).behind (show OneLine " " by decide)).behind
      (oneLine_sign op)).behind (show OneLine " " by decide)
    exact hleft.append (expr_told m r hr)
  | .ternary c y n _, h => by
    obtain ⟨hc, hyn⟩ := plain_append (plain_below h)
    obtain ⟨hy, hn⟩ := plain_append hyn
    have hyes := ((expr_told m c hc).behind (show OneLine " ? " by decide)).append
      (expr_told m y hy)
    exact (hyes.behind (show OneLine " : " by decide)).append (expr_told m n hn)
  | .group none _, _ => (.line (by decide) : Told "()" false)
  | .group (some e) _, h =>
    ((expr_told m e (plain_below h)).before (by decide)).behind (by decide)
  | .generic n none _, h => by
    have hn : OneLine n.text := h (.name n) (by simp [Parts.expr])
    exact .line (((OneLine.append (by decide) hn).append (show OneLine ">" by decide)).append
      (show OneLine "" by decide))
  | .generic n (some e) _, h => by
    have hn : OneLine n.text := h (.name n) (by simp [Parts.expr])
    have hindex := ((expr_told m e (plain_below (plain_below h))).before
      (show OneLine "[" by decide)).behind (show OneLine "]" by decide)
    exact hindex.before ((OneLine.append (by decide) hn).append (by decide))
  | .reference ⟨scope, segs, _⟩, h =>
    (segments_told m none segs (plain_below (plain_below h))).before (oneLine_scopeText scope)
  | .assignment ⟨n, value, s⟩, h =>
    assignment_told m (h (.name n) (by simp [Parts.expr, Parts.assignment])) s
      (expr_told m value (plain_below (plain_below (plain_below h))))
  | .visibility ⟨_, keyword, .assignment ⟨n, value, s⟩, _⟩, h => by
    have hbelow := plain_below (plain_below h)
    have hkeyword : OneLine keyword.text := hbelow (.name keyword) (List.mem_cons_self ..)
    have hdeclared := plain_below (plain_below hbelow)
    have hn : OneLine n.text := hdeclared (.name n) (List.mem_cons_self ..)
    exact (assignment_told m hn s (expr_told m value (plain_below hdeclared))).before
      (hkeyword.append (by decide))
  | .visibility ⟨_, keyword, .template t, _⟩, h => by
    have hkeyword : OneLine keyword.text :=
      plain_below (plain_below h) (.name keyword) (List.mem_cons_self ..)
    exact (template_told m t).before (hkeyword.append (by decide))
  | .error e, _ => text_told e.text

/-- So do the elements of a list, each on a line of its own or all on one. -/
theorem elements_told (m : Margin) (block : Bool) : ∀ es, (∀ p ∈ Parts.exprs es, p.Plain) →
    Told (elements m block es) (block && !es.isEmpty || anyBreaks es)
  | [], _ => by
    rw [List.isEmpty_nil, Bool.not_true, Bool.and_false]
    exact (.line (by decide) : Told "" false)
  | [e], h => by
    have := (lead_told m block).append (expr_told m e (plain_append h).1)
    simpa [elements, anyBreaks] using this
  | e :: e' :: rest, h => by
    obtain ⟨he, hrest⟩ := plain_append h
    have hfirst := ((lead_told m block).append (expr_told m e he)).behind (oneLine_comma block)
    have hwhole := hfirst.append (elements_told m block (e' :: rest) hrest)
    have hbool : (block || breaks e || (block && !(e' :: rest).isEmpty || anyBreaks (e' :: rest))) =
        (block && !(e :: e' :: rest).isEmpty || anyBreaks (e :: e' :: rest)) := by
      cases block <;> simp [anyBreaks]
    exact hbool ▸ hwhole

/-- So do the segments of a path. -/
theorem segments_told (m : Margin) (before : Option SegmentKind) : ∀ segs,
    (∀ p ∈ Parts.segments segs, p.Plain) → Told (segments m before segs) (breaksIn segs)
  | [], _ => (.line (by decide) : Told "" false)
  | .name n kind :: rest, h =>
    (segments_told m (some kind) rest (plain_below h)).before
      ((oneLine_joiner before).append (h (.name n) (List.mem_cons_self ..)))
  | .index e :: rest, h => by
    obtain ⟨he, hrest⟩ := plain_append h
    have hindex := ((expr_told m e he).before (show OneLine "[" by decide)).behind
      (show OneLine "]" by decide)
    exact hindex.append (segments_told m before rest hrest)

end

end Layout

/-- A part that `Layout.isBlock` does not look into, and that is written on several lines: a string
or a payload with a line break, a generic or a reference with an index whose text has one. -/
def Part.Hides (m : Layout.Margin) : Part → Prop
  | .expr (.string _ raw _) | .expr (.guid raw _) => ¬ OneLine raw
  | .expr (.generic _ index _) => ∃ e, index = some e ∧ ¬ OneLine (Layout.expr m e)
  | .reference r => ∃ e, .index e ∈ r.segments ∧ ¬ OneLine (Layout.expr m e)
  | _ => False

namespace Layout

/-- Where a part of these hides something, `b` is true; and if it is true and `block` is not, some
part does. -/
structure Hidden (m : Margin) (parts : List Part) (block b : Bool) : Prop where
  shown : ∀ p ∈ parts, p.Hides m → b = true
  found : block = false → b = true → ∃ p ∈ parts, p.Hides m

namespace Hidden

variable {m : Margin} {p : Part} {parts more : List Part} {block block' b b' : Bool}

/-- Nothing is hidden among no parts. -/
theorem nil : Hidden m [] false false where
  shown _ h := nomatch h
  found _ h := nomatch h

/-- Two lists of parts hide what one of them does. -/
theorem append (h : Hidden m parts block b) (h' : Hidden m more block' b') :
    Hidden m (parts ++ more) (block || block') (b || b') where
  shown p hp hides := by
    rw [Bool.or_eq_true]
    exact (List.mem_append.1 hp).imp (fun hp => h.shown p hp hides) fun hp => h'.shown p hp hides
  found hblock hb := by
    rw [Bool.or_eq_false_iff] at hblock
    rcases Bool.or_eq_true_iff.1 hb with hb | hb
    · obtain ⟨p, hp, hides⟩ := h.found hblock.1 hb
      exact ⟨p, List.mem_append_left _ hp, hides⟩
    · obtain ⟨p, hp, hides⟩ := h'.found hblock.2 hb
      exact ⟨p, List.mem_append_right _ hp, hides⟩

/-- A part in front that hides nothing. -/
theorem pass (hp : ¬ p.Hides m) (h : Hidden m parts block b) : Hidden m (p :: parts) block b where
  shown q hq hides := by
    rcases List.mem_cons.1 hq with rfl | hq
    · exact absurd hides hp
    · exact h.shown q hq hides
  found hblock hb := by
    obtain ⟨q, hq, hides⟩ := h.found hblock hb
    exact ⟨q, List.mem_cons_of_mem _ hq, hides⟩

/-- A part in front that hides whatever is written on several lines below it. -/
theorem cover (hp : p.Hides m ↔ b = true) (h : ∀ q ∈ parts, q.Hides m → b = true) :
    Hidden m (p :: parts) block b where
  shown := List.forall_mem_cons.2 ⟨hp.1, h⟩
  found _ hb := ⟨p, List.mem_cons_self .., hp.2 hb⟩

/-- What has lines of its own for its elements is seen to. -/
theorem spread (h : Hidden m parts block b) : Hidden m parts block (block || b) where
  shown p hp hides := by rw [h.shown p hp hides, Bool.or_true]
  found hblock hb := h.found hblock (by simpa [hblock] using hb)

/-- What is always taken for several lines hides nothing. -/
theorem always (h : Hidden m parts block b) : Hidden m parts true b :=
  ⟨h.shown, fun hf => nomatch hf⟩

/-- Nothing is hidden, and it is known how it is written. -/
theorem known (h : ∀ p ∈ parts, ¬ p.Hides m) : Hidden m parts b b where
  shown p hp hides := absurd hides (h p hp)
  found hblock hb := by rw [hblock] at hb; cases hb

end Hidden

section

variable {m : Margin}

/-- A string hides its line feeds. -/
theorem string_hides (quote : Quote) (raw : String) (s : Span) :
    Part.Hides m (.expr (.string quote raw s)) ↔ raw.toList.contains '\n' = true := by
  simp [Part.Hides, OneLine]

/-- So does a payload. -/
theorem guid_hides (raw : String) (s : Span) :
    Part.Hides m (.expr (.guid raw s)) ↔ raw.toList.contains '\n' = true := by
  simp [Part.Hides, OneLine]

/-- The text of an expression takes several lines exactly if it is said to. -/
theorem not_oneLine_iff {e : Expr} (h : ∀ p ∈ Parts.expr e, p.Plain) :
    ¬ OneLine (expr m e) ↔ breaks e = true := by
  rw [OneLine, not_not]
  exact expr_told m e h

/-- A generic type hides an index of several lines. -/
theorem generic_hides (n : Name) (s : Span) {e : Expr} (h : ∀ p ∈ Parts.expr e, p.Plain) :
    Part.Hides m (.expr (.generic n (some e) s)) ↔ breaks e = true := by
  rw [← not_oneLine_iff (m := m) h]
  simp [Part.Hides]

/-- Among the indexes of a reference one takes several lines exactly if it is said that one does. -/
theorem segments_hide {segs : List Segment} (h : ∀ p ∈ Parts.segments segs, p.Plain) :
    (∃ e, .index e ∈ segs ∧ ¬ OneLine (expr m e)) ↔ breaksIn segs = true := by
  induction segs with
  | nil => simp [breaksIn]
  | cons seg rest ih =>
    cases seg with
    | name n kind => simpa [breaksIn] using ih (plain_below h)
    | index e =>
      obtain ⟨he, hrest⟩ := plain_append h
      simp [breaksIn, or_and_right, exists_or, ih hrest, not_oneLine_iff he]

/-- An object hides nothing: it is a block if it has entries. -/
theorem object_hidden (n : Name) (entries : List Entry) (s : Span) :
    Hidden m (Parts.object ⟨n, entries, s⟩) (!entries.isEmpty) (!entries.isEmpty) := by
  cases entries with
  | nil => exact .pass id (.pass id .nil)
  | cons e entries => exact ⟨fun _ _ _ => rfl, fun h => nomatch h⟩

end

mutual

/-- What makes an expression take several lines makes it a block, or is hidden in some part. -/
theorem expr_hidden (m : Margin) : ∀ e, (∀ p ∈ Parts.expr e, p.Plain) →
    Hidden m (Parts.expr e) (isBlock e) (breaks e)
  | .nil _, _ | .bool .., _ | .number .., _ => .pass id .nil
  | .string quote raw s, _ => .cover (string_hides quote raw s) fun _ h => nomatch h
  | .guid raw s, _ => .cover (guid_hides raw s) fun _ h => nomatch h
  | .object ⟨n, entries, s⟩, _ => .pass id (object_hidden n entries s)
  | .vector _ _ items _ _, h =>
    .pass id (.pass id (exprs_hidden m items (plain_below (plain_below h))).spread)
  | .list items _ _, h => .pass id (exprs_hidden m items (plain_below h)).spread
  | .map _ pairs _, h =>
    .pass id (.pass id (exprs_hidden m pairs (plain_below (plain_below h))).spread)
  | .pair l r _, h => by
    obtain ⟨hl, hr⟩ := plain_append (plain_below h)
    exact .pass id ((expr_hidden m l hl).append (expr_hidden m r hr))
  | .unary _ e _, h => .pass id (expr_hidden m e (plain_below h))
  | .binary _ l r _, h => by
    obtain ⟨hl, hr⟩ := plain_append (plain_below h)
    exact .pass id ((expr_hidden m l hl).append (expr_hidden m r hr))
  | .ternary c y n _, h => by
    obtain ⟨hc, hyn⟩ := plain_append (plain_below h)
    obtain ⟨hy, hn⟩ := plain_append hyn
    have hall := (expr_hidden m c hc).append ((expr_hidden m y hy).append (expr_hidden m n hn))
    rw [← Bool.or_assoc, ← Bool.or_assoc] at hall
    exact .pass id hall
  | .group none _, _ => .pass id .nil
  | .group (some e) _, h => .pass id (expr_hidden m e (plain_below h))
  | .generic _ none _, _ => .known (by simp [Parts.expr, Parts.expr?, Part.Hides])
  | .generic n (some e) s, h => by
    have he := plain_below (plain_below h)
    exact .cover (generic_hides n s he) (Hidden.pass id (expr_hidden m e he)).shown
  | .reference ⟨_, segs, _⟩, h => by
    have hsegs := plain_below (plain_below h)
    exact .pass id (.cover (segments_hide hsegs) (segments_shown m segs hsegs))
  | .assignment ⟨_, value, _⟩, h =>
    .pass id (.pass id (.pass id (expr_hidden m value (plain_below (plain_below (plain_below h))))))
  | .visibility ⟨_, _, .assignment ⟨_, value, _⟩, _⟩, h => by
    have hvalue := plain_below (plain_below (plain_below (plain_below (plain_below h))))
    exact .pass id (.pass id (.pass id (.pass id (.pass id (expr_hidden m value hvalue).always))))
  | .visibility ⟨_, _, .template _, _⟩, _ => ⟨fun _ _ _ => rfl, fun h => nomatch h⟩
  | .error e, _ => .known (by simp [Parts.expr, Part.Hides])

/-- So it is with several expressions. -/
theorem exprs_hidden (m : Margin) : ∀ es, (∀ p ∈ Parts.exprs es, p.Plain) →
    Hidden m (Parts.exprs es) (anyBlock es) (anyBreaks es)
  | [], _ => .nil
  | e :: rest, h => by
    obtain ⟨he, hrest⟩ := plain_append h
    exact (expr_hidden m e he).append (exprs_hidden m rest hrest)

/-- What a segment hides makes the path take several lines. -/
theorem segments_shown (m : Margin) : ∀ segs, (∀ p ∈ Parts.segments segs, p.Plain) →
    ∀ p ∈ Parts.segments segs, p.Hides m → breaksIn segs = true
  | [], _, _, h => nomatch h
  | .name .. :: rest, plain, p, h => fun hides => by
    rcases List.mem_cons.1 h with rfl | h
    · cases hides
    · exact segments_shown m rest (plain_below plain) p h hides
  | .index e :: rest, plain, p, h => fun hides => by
    obtain ⟨he, hrest⟩ := plain_append plain
    refine Bool.or_eq_true_iff.2 ((List.mem_append.1 h).imp (fun h => ?_) fun h => ?_)
    · exact (expr_hidden m e he).shown p h hides
    · exact segments_shown m rest hrest p h hides

end

end Layout

/-- A word has no line break. -/
theorem Word.IsWord.oneLine {text : String} (h : Word.IsWord text.toList) : OneLine text := by
  rw [OneLine]
  cases hc : text.toList with
  | nil => simp
  | cons c rest =>
    rw [hc] at h
    rintro hmem
    rcases List.mem_cons.1 hmem with rfl | hmem
    · exact absurd h.1 (by decide)
    · exact absurd (h.2 _ hmem) (by decide)

/-- A number has no line break. -/
theorem NumberKind.Writes.oneLine {kind : NumberKind} {text : String}
    (h : kind.Writes text.toList) : OneLine text := by
  intro hmem
  cases kind with
  | decimal => exact absurd (h.2 _ hmem) (by decide)
  | hex =>
    obtain ⟨x, digits, htext, hx, -, hdigits⟩ := h
    rw [htext, List.mem_cons, List.mem_cons] at hmem
    rcases hmem with hmem | rfl | hmem
    · exact absurd hmem (by decide)
    · exact absurd hx (by decide)
    · exact absurd (hdigits _ hmem) (by decide)
  | float =>
    obtain ⟨whole, part, htext, -, hwhole, hpart⟩ := h
    rw [htext, List.mem_append, List.mem_cons] at hmem
    rcases hmem with hmem | hmem | hmem
    · exact absurd (hwhole _ hmem) (by decide)
    · exact absurd hmem (by decide)
    · exact absurd (hpart _ hmem) (by decide)

/-- Names and numbers that are formed as they should be are on one line. -/
theorem Part.WellFormed.plain {p : Part} (h : p.WellFormed) : p.Plain := by
  cases p with
  | name n => exact Word.IsWord.oneLine h
  | expr e =>
    cases e with
    | number kind text s => exact NumberKind.Writes.oneLine h
    | _ => trivial
  | _ => trivial

/-- **What makes an expression take several lines.**  An expression of a document that is not taken
for a block is written on one line, unless a string or a payload in it has a line break or an index
in it takes several lines.  In these cases it does take several, wherever it stands. -/
theorem parse_lines (source : String) (m : Layout.Margin) {e : Expr}
    (he : .expr e ∈ (parse source).document.parts) (hblock : Layout.isBlock e = false) :
    ¬ OneLine (Layout.expr m e) ↔ ∃ p ∈ Parts.expr e, p.Hides m := by
  have hplain : ∀ p ∈ Parts.expr e, p.Plain := fun p hp =>
    (parse_wellFormed source p ((linked_of_mem he).2 p hp)).plain
  have hhidden := Layout.expr_hidden m e hplain
  rw [Layout.not_oneLine_iff hplain]
  constructor
  · exact hhidden.found hblock
  · rintro ⟨p, hp, hides⟩
    exact hhidden.shown p hp hides

/-- A list on one line with a payload that takes two. -/
theorem parse_lines_payload : ∃ e, .expr e ∈ (parse "[GUID:\x7ba\nb\x7d, 1]").document.parts ∧
    Layout.isBlock e = false ∧ e.format = "[GUID:\x7ba\nb\x7d, 1]" ∧
    ∃ p ∈ Parts.expr e, p.Hides ⟨4, 0⟩ := by
  have hfound : ((parse "[GUID:\x7ba\nb\x7d, 1]").document.parts.filterMap Part.expr?).any (fun e =>
      !Layout.isBlock e && e.format == "[GUID:\x7ba\nb\x7d, 1]") = true := by decide +kernel
  obtain ⟨e, he, hcheck⟩ := List.any_eq_true.1 hfound
  obtain ⟨p, hp, hpart⟩ := List.mem_filterMap.1 he
  rw [Part.expr?_eq_some.1 hpart] at hp
  simp only [Bool.and_eq_true, Bool.not_eq_true', beq_iff_eq] at hcheck
  refine ⟨e, hp, hcheck.1, hcheck.2, (parse_lines _ ⟨4, 0⟩ hp hcheck.1).1 ?_⟩
  rw [show Layout.expr ⟨4, 0⟩ e = e.format from rfl, hcheck.2]
  decide

/-- **Not every expression on several lines is taken for a block.**  The source has no problem, and
the element of the list that has an object for its index takes four lines. -/
theorem parse_lines_index : (parse "[a[T(x = 1)]/b, c]").diagnostics = [] ∧
    ∃ e, .expr e ∈ (parse "[a[T(x = 1)]/b, c]").document.parts ∧
      e.format = "a[T\n(\n    x = 1\n)]/b" ∧ Layout.isBlock e = false := by
  have hclean : (parse "[a[T(x = 1)]/b, c]").diagnostics.isEmpty = true := by decide +kernel
  have hfound : ((parse "[a[T(x = 1)]/b, c]").document.parts.filterMap Part.expr?).any (fun e =>
      e.format == "a[T\n(\n    x = 1\n)]/b" && !Layout.isBlock e) = true := by decide +kernel
  refine ⟨List.isEmpty_iff.1 hclean, ?_⟩
  obtain ⟨e, he, hcheck⟩ := List.any_eq_true.1 hfound
  obtain ⟨p, hp, hpart⟩ := List.mem_filterMap.1 he
  rw [Part.expr?_eq_some.1 hpart] at hp
  simp only [Bool.and_eq_true, Bool.not_eq_true', beq_iff_eq] at hcheck
  exact ⟨e, hp, hcheck⟩

end Ndf
