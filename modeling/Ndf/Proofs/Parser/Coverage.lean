/-
# The items of a document cover its tokens

`SPEC_FULL.md` §3: an item is whole and in order, and a fragment is a leaf of its own.

Items are read one behind another up to the end of the tokens, and each covers the tokens that
were read for it, be it sound or cut out.  So the tokens that the grammar sees fall into one piece
for each item (`Piece`), and since tokens are in order and not empty, so are the items.

What lies outside of all items is what lies outside of all tokens, that is white space and a byte
order mark at the front, and comments (`parse_coverage`).
-/

import Ndf.Proofs.Parser.Spans
import Ndf.Proofs.Token.Lossless

namespace Ndf

/-! ### Places in a text -/

namespace Text

variable {text before after : List Char} {c : Char} {a b : Nat}

/-- What is dropped stands in front. -/
theorem eq_append_of_dropBytes {n : Nat} {rest : List Char} (h : dropBytes n text = some rest) :
    ∃ front, text = front ++ rest ∧ byteSize front = n := by
  fun_induction dropBytes n text with
  | case1 text =>
    injection h with h
    exact ⟨[], h, rfl⟩
  | case2 => cases h
  | case3 n c text hc ih =>
    obtain ⟨front, rfl, hs⟩ := ih h
    refine ⟨c :: front, rfl, ?_⟩
    rw [byteSize_cons]
    omega
  | case4 => cases h

/-- What is taken stands in front. -/
theorem eq_append_of_takeBytes {n : Nat} {front : List Char} (h : takeBytes n text = some front) :
    ∃ rest, text = front ++ rest ∧ byteSize front = n := by
  fun_induction takeBytes n text generalizing front with
  | case1 text =>
    injection h with h
    exact ⟨text, by rw [← h, List.nil_append], h ▸ rfl⟩
  | case2 => cases h
  | case3 n c text hc ih =>
    obtain ⟨front, hf, rfl⟩ := Option.map_eq_some_iff.1 h
    obtain ⟨rest, rfl, hs⟩ := ih hf
    refine ⟨rest, rfl, ?_⟩
    rw [byteSize_cons]
    omega
  | case4 => cases h

/-- A slice is a part of the text, and its ends tell where. -/
theorem eq_append_of_slice? {word : List Char} (h : slice? text a b = some word) :
    ∃ front rest, text = front ++ (word ++ rest) ∧ byteSize front = a ∧
      byteSize front + byteSize word = b := by
  unfold slice? at h
  split at h
  · obtain ⟨mid, hd, ht⟩ := Option.bind_eq_some_iff.1 h
    obtain ⟨front, rfl, hf⟩ := eq_append_of_dropBytes hd
    obtain ⟨rest, rfl, hw⟩ := eq_append_of_takeBytes ht
    refine ⟨front, rest, rfl, hf, ?_⟩
    omega
  · cases h

/-- A text without bytes is empty. -/
theorem eq_nil_of_byteSize {text : List Char} (h : byteSize text = 0) : text = [] := by
  by_contra hne
  have := byteSize_pos hne
  omega

/-- A character stands in the part of a text that its offset falls into. -/
theorem mem_of_offset {front word rest : List Char}
    (h : before ++ c :: after = front ++ (word ++ rest))
    (ha : byteSize front ≤ byteSize before)
    (hb : byteSize before < byteSize front + byteSize word) : c ∈ word := by
  have key (mid : List Char) (hm : before = front ++ mid) (hr : word ++ rest = mid ++ c :: after) :
      c ∈ word := by
    rw [hm, byteSize_append] at hb
    rcases List.append_eq_append_iff.1 hr with ⟨tail, rfl, -⟩ | ⟨tail, rfl, ht⟩
    · rw [byteSize_append] at hb
      omega
    · rcases tail with _ | ⟨d, tail⟩
      · rw [List.append_nil] at hb
        omega
      · rw [List.cons_append, List.cons.injEq] at ht
        simp [ht.1]
  rcases List.append_eq_append_iff.1 h with ⟨mid, rfl, hr⟩ | ⟨mid, hm, hr⟩
  · rw [byteSize_append] at ha
    obtain rfl : mid = [] := eq_nil_of_byteSize (by omega)
    exact key [] (by simp) (by simpa using hr.symm)
  · exact key mid hm hr

/-- A character between the two places is white space. -/
theorem BlankBetween.isBlank (h : BlankBetween text a b) (ht : text = before ++ c :: after)
    (ha : a ≤ byteSize before) (hb : byteSize before < b) : isBlank c = true := by
  obtain ⟨gap, hs, hg⟩ := h
  obtain ⟨front, rest, hf, rfl, rfl⟩ := eq_append_of_slice? hs
  exact hg c (mem_of_offset (ht.symm.trans hf) ha hb)

end Text

/-! ### Tokens in order -/

/-- A token that covers something, and one behind it. -/
def Token.Before (a b : Token) : Prop :=
  a.span.stop ≤ b.span.start ∧ b.span.start ≤ b.span.stop

instance : Trans Token.Before Token.Before Token.Before where
  trans h h' := ⟨Nat.le_trans h.1 (Nat.le_trans h.2 h'.1), h'.2⟩

namespace Lexer.Cover

variable {text : List Char} {tokens : List Token}

/-- A token ends no earlier than it starts. -/
theorem start_le_stop (h : Cover text tokens) {t : Token} (ht : t ∈ tokens) :
    t.span.start ≤ t.span.stop := by
  obtain ⟨last, hl, -, hs, he⟩ := h.last
  have hne : tokens ≠ [] := by
    rintro rfl
    cases ht
  rw [← List.dropLast_append_getLast hne, List.mem_append, List.mem_singleton] at ht
  rcases ht with ht | rfl
  · exact Nat.le_of_lt (h.covers t ht).2.1
  · rw [List.getLast?_eq_getLast_of_ne_nil hne, Option.some.injEq] at hl
    rw [hl, hs, he]

/-- No token starts in front of the end of one before it. -/
theorem pairwise (h : Cover text tokens) : tokens.Pairwise Token.Before := by
  have hb : tokens.IsChain Token.Before :=
    h.chain.imp_of_mem_imp fun _ _ _ hb hab => ⟨hab.ordered, h.start_le_stop hb⟩
  exact hb.pairwise

/-- The end of the source is the one token that covers nothing. -/
theorem ne_eof_iff_lt (h : Cover text tokens) {t : Token} (ht : t ∈ tokens) :
    t.kind ≠ .eof ↔ t.span.start < t.span.stop := by
  obtain ⟨last, hl, hk, hs, he⟩ := h.last
  have hne : tokens ≠ [] := List.ne_nil_of_mem ht
  rw [List.getLast?_eq_getLast_of_ne_nil hne, Option.some.injEq] at hl
  rw [← List.dropLast_append_getLast hne, List.mem_append, List.mem_singleton] at ht
  rcases ht with ht | rfl
  · exact iff_of_true (h.covers t ht).1 (h.covers t ht).2.1
  · rw [hl]
    exact iff_of_false (fun hn => hn hk) (by omega)

end Lexer.Cover

/-- Behind a place in front of the first token, a character is white space or in a token. -/
theorem Token.blank_or_mem {text before after : List Char} {c : Char} {tokens : List Token}
    (hc : text = before ++ c :: after) (chain : tokens.IsChain (Token.Follows text)) :
    ∀ {a : Nat} (hne : tokens ≠ []), Text.BlankBetween text a (tokens.head hne).span.start →
      a ≤ Text.byteSize before → Text.byteSize before < (tokens.getLast hne).span.stop →
      Text.isBlank c = true ∨ ∃ t ∈ tokens, t.span.start ≤ Text.byteSize before ∧
        Text.byteSize before < t.span.stop := by
  induction tokens with
  | nil => exact fun hne => absurd rfl hne
  | cons t tokens ih =>
    intro a hne hgap ha hlast
    by_cases hs : Text.byteSize before < t.span.start
    · exact .inl (hgap.isBlank hc ha hs)
    · by_cases he : Text.byteSize before < t.span.stop
      · exact .inr ⟨t, List.mem_cons_self .., by omega, he⟩
      · rcases tokens with _ | ⟨u, tokens⟩
        · exact absurd hlast he
        · have hf := List.rel_of_isChain_cons_cons chain
          rcases ih (List.isChain_of_isChain_cons chain) (List.cons_ne_nil u tokens) hf.gap
            (by omega) hlast with hb | ⟨v, hv, hin⟩
          · exact .inl hb
          · exact .inr ⟨v, List.mem_cons_of_mem t hv, hin⟩

/-- **Every character of a source is white space, in a token or the byte order mark.** -/
theorem tokenize_blank_or_mem (source : String) {before after : List Char} {c : Char}
    (hc : source.toList = before ++ c :: after) :
    Text.isBlank c = true ∨ before = [] ∧ c = '\uFEFF' ∨
      ∃ t ∈ (tokenize source).tokens, t.span.start ≤ Text.byteSize before ∧
        Text.byteSize before < t.span.stop := by
  have cover := cover_tokenize source
  have hfirst := head?_tokenize source
  have hgap := blankBetween_ofText source
  obtain ⟨last, hlast, -, -, hstop⟩ := cover.last
  have hne : (tokenize source).tokens ≠ [] := by
    intro hnil
    rw [hnil] at hfirst
    cases hfirst
  rw [List.getLast?_eq_getLast_of_ne_nil hne, Option.some.injEq] at hlast
  rw [List.head?_eq_some_head hne, Option.some.injEq] at hfirst
  have hpos := c.utf8Size_pos
  have hsize : Text.byteSize before < last.span.stop := by
    rw [hstop, hc, Text.byteSize_append, Text.byteSize_cons]
    omega
  by_cases hm : Text.markSize source.toList ≤ Text.byteSize before
  · rcases Token.blank_or_mem hc cover.chain hne (hfirst ▸ hgap) hm (hlast ▸ hsize) with hb | ht
    · exact .inl hb
    · exact .inr (.inr ht)
  · refine .inr (.inl ?_)
    unfold Text.markSize at hm
    split at hm
    · rename_i hhead
      rw [hc] at hhead
      rcases before with _ | ⟨d, before⟩
      · exact ⟨rfl, by simpa using hhead⟩
      · obtain rfl : d = '\uFEFF' := by simpa using hhead
        rw [Text.byteSize_cons] at hm
        exact absurd hm (by simp [show '\uFEFF'.utf8Size = 3 from rfl])
    · exact absurd (Nat.zero_le _) hm

/-! ### The pieces of a document -/

/-- An item covers a stretch of tokens, from the start of the first one. -/
structure Item.Covers (item : Item) (piece : List Token) : Prop where
  ne_nil : piece ≠ []
  start : item.span.start = (piece.head ne_nil).span.start
  stop : item.span.stop = max (piece.getLast ne_nil).span.stop (piece.head ne_nil).span.stop

/-- The items cover the tokens piece by piece. -/
def Tiling (items : List Item) (tokens : List Token) : Prop :=
  ∃ pieces : List (List Token), pieces.flatten = tokens ∧ List.Forall₂ Item.Covers items pieces

namespace Parser

variable {g : Grammar} {src : Source}

/-- An item covers the tokens that were read for it. -/
theorem itemOrError_covers (hg : Advancing g) (hs : Spanning g) (he : src.Ended) {c : Cursor}
    (hc : c.rest ≠ []) : ∃ item piece, (itemOrError g src c).value = some item ∧
      item.Covers piece ∧ c.Passes piece (itemOrError g src c).cursor := by
  obtain ⟨item, hi⟩ := Option.ne_none_iff_exists'.1 (itemOrError_returns (g := g) src c)
  obtain ⟨piece, hp⟩ := (itemOrError_steady hg).lands he c (hi ▸ Option.some_ne_none item)
  have hlt := itemOrError_lt hg he hc
  have hne : piece ≠ [] := by
    rintro rfl
    rw [hp.nil] at hlt
    exact absurd hlt (Nat.lt_irrefl _)
  have hspan := itemOrError_spans hs he c item hi
  have hhead : (c.rest.headD src.stop) = piece.head hne := by
    obtain ⟨t, ts, rfl⟩ := List.exists_cons_of_ne_nil hne
    rw [hp.rest]
    rfl
  obtain ⟨hcount, hlast⟩ := hp.moved hne
  rw [Mark.upTo, Mark.here, if_pos hcount, hhead] at hspan
  exact ⟨item, piece, hi, ⟨hne, by rw [hspan]; rfl, by rw [hspan, Span.through, hlast]⟩, hp⟩

/-- Reading the items that are left tiles the tokens that are left. -/
theorem nextItem_tiling (hg : Advancing g) (hs : Spanning g) (he : src.Ended) (read : List Item)
    (c : Cursor) : ∃ its,
      (loop (nextItem g) read src c).value = some (some (read.reverse ++ its)) ∧
        Tiling its c.rest := by
  refine loop_rec (nextItem_advances hg) he (P := fun read c o => ∃ its,
    o.value = some (some (read.reverse ++ its)) ∧ Tiling its c.rest) (fun read c ih => ?_) read c
  by_cases hr : c.rest = []
  · refine ⟨[], ?_, [], hr.symm, .nil⟩
    rw [bind_of_some (by rw [nextItem_nil hr]), List.append_nil]
    rfl
  · obtain ⟨item, piece, hi, hcov, hp⟩ := itemOrError_covers hg hs he hr
    have hstep : nextItem g read src c = ⟨some (.inl (item :: read)),
        (itemOrError g src c).cursor, (itemOrError g src c).notes⟩ := by
      rw [nextItem_cons hr, bind_of_some hi, pure_run, List.append_nil]
    obtain ⟨its, hv, pieces, hflat, hall⟩ := ih (item :: read) (by rw [hstep])
    refine ⟨item :: its, ?_, piece :: pieces, ?_, .cons hcov hall⟩
    · rw [bind_of_some (by rw [hstep])]
      refine hv.trans ?_
      rw [List.reverse_cons, List.append_assoc]
      rfl
    · rw [List.flatten_cons, hflat, hstep]
      exact hp.rest.symm

/-- **Reading all items tiles the tokens.** -/
theorem items_tiling (hg : Advancing g) (hs : Spanning g) (he : src.Ended) (c : Cursor) :
    ∃ its, (items g (fun _ => false) src c).value = some (some its) ∧ Tiling its c.rest :=
  nextItem_tiling hg hs he [] c

end Parser

/-- One span lies inside another. -/
def Span.encloses (a b : Span) : Bool := a.start ≤ b.start && b.stop ≤ a.stop

/-- A span encloses another if it starts no later and ends no earlier. -/
theorem Span.encloses_iff {a b : Span} :
    a.encloses b = true ↔ a.start ≤ b.start ∧ b.stop ≤ a.stop := by
  simp [Span.encloses]

/-- Items in order, each from the start of a token to the end of one, that hold every token once. -/
structure ItemsCover (items : List Item) (tokens : List Token) : Prop where
  nonempty : ∀ i ∈ items, i.span.start < i.span.stop
  ordered : items.Pairwise fun a b => a.span.stop ≤ b.span.start
  starts : ∀ i ∈ items, ∃ t ∈ tokens, t.span.start = i.span.start
  stops : ∀ i ∈ items, ∃ t ∈ tokens, t.span.stop = i.span.stop
  once : ∀ t ∈ tokens, items.countP (fun i => i.span.encloses t.span) = 1

namespace Item.Covers

variable {item : Item} {piece : List Token}

/-- An item ends where its last token does. -/
theorem stop_eq (h : item.Covers piece) (ordered : piece.Pairwise Token.Before)
    (pos : ∀ t ∈ piece, t.span.start < t.span.stop) :
    item.span.stop = (piece.getLast h.ne_nil).span.stop := by
  have hle : (piece.head h.ne_nil).span.stop ≤ (piece.getLast h.ne_nil).span.stop := by
    obtain ⟨t, ts, rfl⟩ := List.exists_cons_of_ne_nil h.ne_nil
    rcases List.mem_cons.1 (List.getLast_mem h.ne_nil) with heq | hmem
    · rw [heq, List.head_cons]
    · have hb := (List.pairwise_cons.1 ordered).1 _ hmem
      exact Nat.le_trans hb.1 hb.2
  rw [h.stop, Nat.max_eq_left hle]

/-- Its tokens lie inside it. -/
theorem encloses (h : item.Covers piece) (ordered : piece.Pairwise Token.Before)
    (pos : ∀ t ∈ piece, t.span.start < t.span.stop) {t : Token} (ht : t ∈ piece) :
    item.span.start ≤ t.span.start ∧ t.span.stop ≤ item.span.stop := by
  rw [h.start, h.stop_eq ordered pos]
  constructor
  · obtain ⟨u, us, rfl⟩ := List.exists_cons_of_ne_nil h.ne_nil
    rcases List.mem_cons.1 ht with rfl | ht
    · exact Nat.le_refl _
    · have hb := (List.pairwise_cons.1 ordered).1 _ ht
      have := pos u (List.mem_cons_self ..)
      have := hb.1
      rw [List.head_cons]
      omega
  · have hsplit := List.dropLast_append_getLast h.ne_nil
    rw [← hsplit, List.mem_append, List.mem_singleton] at ht
    rcases ht with ht | rfl
    · rw [← hsplit, List.pairwise_append] at ordered
      have hb := ordered.2.2 t ht _ (List.mem_singleton_self _)
      exact Nat.le_trans hb.1 hb.2
    · exact Nat.le_refl _

end Item.Covers

/-- Items that tile the tokens cover them. -/
theorem Tiling.itemsCover {items : List Item} {tokens : List Token} (h : Tiling items tokens)
    (ordered : tokens.Pairwise Token.Before)
    (pos : ∀ t ∈ tokens, t.span.start < t.span.stop) : ItemsCover items tokens := by
  obtain ⟨pieces, rfl, hall⟩ := h
  induction hall with
  | nil => exact ⟨by simp, .nil, by simp, by simp, by simp⟩
  | @cons item piece items pieces hitem hitems ih =>
    rw [List.flatten_cons, List.pairwise_append] at ordered
    obtain ⟨hpiece, hrest, hcross⟩ := ordered
    have posPiece (t : Token) (ht : t ∈ piece) := pos t (List.mem_append_left _ ht)
    have posRest (t : Token) (ht : t ∈ pieces.flatten) := pos t (List.mem_append_right _ ht)
    have cover := ih hrest posRest
    have hstop := hitem.stop_eq hpiece posPiece
    have hlast := List.getLast_mem hitem.ne_nil
    have hhead := List.head_mem hitem.ne_nil
    -- What the rest of the items covers starts behind this one.
    have behind (i : Item) (hi : i ∈ items) : item.span.stop ≤ i.span.start := by
      obtain ⟨t, ht, hs⟩ := cover.starts i hi
      rw [hstop, ← hs]
      exact (hcross _ hlast t ht).1
    have enclosed (t : Token) (ht : t ∈ piece) := hitem.encloses hpiece posPiece ht
    constructor
    · intro i hi
      rcases List.mem_cons.1 hi with rfl | hi
      · have := enclosed _ hhead
        have := posPiece _ hhead
        omega
      · exact cover.nonempty i hi
    · exact .cons behind cover.ordered
    · intro i hi
      rcases List.mem_cons.1 hi with rfl | hi
      · exact ⟨_, List.mem_append_left _ hhead, hitem.start.symm⟩
      · obtain ⟨t, ht, hs⟩ := cover.starts i hi
        exact ⟨t, List.mem_append_right _ ht, hs⟩
    · intro i hi
      rcases List.mem_cons.1 hi with rfl | hi
      · exact ⟨_, List.mem_append_left _ hlast, hstop.symm⟩
      · obtain ⟨t, ht, hs⟩ := cover.stops i hi
        exact ⟨t, List.mem_append_right _ ht, hs⟩
    · intro t ht
      rcases List.mem_append.1 ht with ht | ht
      · have hnone : items.countP (fun i => i.span.encloses t.span) = 0 := by
          refine List.countP_eq_zero.2 fun i hi => ?_
          have := behind i hi
          have := enclosed t ht
          have := posPiece t ht
          rw [Span.encloses_iff]
          omega
        rw [List.countP_cons, hnone, if_pos (Span.encloses_iff.2 (enclosed t ht))]
      · have hout : ¬ item.span.encloses t.span = true := by
          have := (hcross _ hlast t ht).1
          have := posRest t ht
          rw [Span.encloses_iff]
          omega
        rw [List.countP_cons, if_neg hout]
        exact cover.once t ht

/-- The tokens that the grammar sees: all but the comments and the end of the source. -/
def visibleTokens (source : String) : List Token :=
  (tokenize source).tokens.filter fun t => !t.kind.isTrivia && t.kind != .eof

/-- The grammar sees the visible tokens, and the end of the source. -/
theorem ofText_eq (source : String) : (TokenStream.ofText source).tokens = visibleTokens source ∧
    (TokenStream.ofText source).stop.kind = .eof := by
  have cover := cover_tokenize source
  obtain ⟨last, hlast, hkind, -⟩ := cover.last
  have hne : (tokenize source).tokens ≠ [] := by
    intro hnil
    rw [hnil] at hlast
    cases hlast
  rw [List.getLast?_eq_getLast_of_ne_nil hne, Option.some.injEq] at hlast
  have hsplit := List.dropLast_append_getLast hne
  rw [hlast] at hsplit
  have hkept : (tokenize source).tokens.filter (fun t => !t.kind.isTrivia) =
      (tokenize source).tokens.dropLast.filter (fun t => !t.kind.isTrivia) ++ [last] := by
    conv => lhs; rw [← hsplit]
    rw [List.filter_append, List.filter_cons_of_pos (by simp [hkind, TokenKind.isTrivia]),
      List.filter_nil]
  have hseen : visibleTokens source =
      (tokenize source).tokens.dropLast.filter fun t => !t.kind.isTrivia := by
    unfold visibleTokens
    conv => lhs; rw [← hsplit]
    rw [List.filter_append, List.filter_cons_of_neg (by simp [hkind]), List.filter_nil,
      List.append_nil]
    refine List.filter_congr fun t ht => ?_
    simp [(cover.covers t ht).1]
  constructor
  · show (List.filter _ _).dropLast = _
    rw [hkept, hseen, List.dropLast_concat]
  · show (((tokenize source).tokens.filter fun t => !t.kind.isTrivia).getLastD _ : Token).kind = _
    rw [hkept]
    simpa using hkind

/-- A visible token is one of the source, and neither white space nor the end. -/
theorem mem_visibleTokens {source : String} {t : Token} (ht : t ∈ visibleTokens source) :
    t ∈ (tokenize source).tokens ∧ t.kind.isTrivia = false ∧ t.kind ≠ .eof := by
  simpa [visibleTokens] using ht

/-- The items of a source are read, and they tile the tokens that the grammar sees. -/
theorem readItems_tiling (source : String) :
    (readItems (fun _ => false) source (TokenStream.ofText source)).value =
        some (some (parse source).document.items) ∧
      Tiling (parse source).document.items (visibleTokens source) := by
  obtain ⟨htokens, hstop⟩ := ofText_eq source
  obtain ⟨its, hv, ht⟩ := Parser.items_tiling (Parser.advancing_levels Parser.maxNesting)
    (Parser.spanning_levels Parser.maxNesting)
    (show Source.Ended ⟨source.toList, (TokenStream.ofText source).stop⟩ from hstop)
    (.start (TokenStream.ofText source).tokens)
  have hitems : (parse source).document.items = its := by
    show (readItems _ source _).value.join.getD [] = its
    rw [readItems, hv]
    rfl
  rw [hitems, ← htokens]
  exact ⟨hv, ht⟩

/-- Reading the items always returns some. -/
theorem readItems_value (source : String) :
    (readItems (fun _ => false) source (TokenStream.ofText source)).value =
      some (some (parse source).document.items) := (readItems_tiling source).1

/-- The items of a source tile its visible tokens. -/
theorem parse_tiling (source : String) :
    Tiling (parse source).document.items (visibleTokens source) := (readItems_tiling source).2

/-- **No token is lost or used twice.**  However broken a source is, its items are not empty, in
order and disjoint; each starts where a token starts and ends where one ends; and every token that
the grammar sees lies in exactly one of them.  A character outside of all items is white space, in
a comment, or a byte order mark at the front. -/
theorem parse_coverage (source : String) :
    ItemsCover (parse source).document.items (visibleTokens source) ∧
    ∀ before c after, source.toList = before ++ c :: after →
      (∀ i ∈ (parse source).document.items, ¬ (i.span.start ≤ Text.byteSize before ∧
        Text.byteSize before < i.span.stop)) →
      Text.isBlank c = true ∨ before = [] ∧ c = '\uFEFF' ∨
        ∃ t ∈ (tokenize source).tokens, t.kind.isTrivia = true ∧
          t.span.start ≤ Text.byteSize before ∧ Text.byteSize before < t.span.stop := by
  have cover := cover_tokenize source
  have items : ItemsCover (parse source).document.items (visibleTokens source) := by
    refine (parse_tiling source).itemsCover (cover.pairwise.sublist List.filter_sublist) ?_
    intro t ht
    obtain ⟨hmem, -, hkind⟩ := mem_visibleTokens ht
    exact (cover.ne_eof_iff_lt hmem).1 hkind
  refine ⟨items, fun before c after hc hout => ?_⟩
  rcases tokenize_blank_or_mem source hc with hb | hm | ⟨t, ht, hin⟩
  · exact .inl hb
  · exact .inr (.inl hm)
  · refine .inr (.inr ⟨t, ht, ?_, hin⟩)
    by_contra htrivia
    have hkind := (cover.ne_eof_iff_lt ht).2 (by omega)
    have hseen : t ∈ visibleTokens source := by
      rw [Bool.not_eq_true] at htrivia
      simp [visibleTokens, ht, hkind, htrivia]
    have hpos : 0 < (parse source).document.items.countP (fun i => i.span.encloses t.span) := by
      rw [items.once t hseen]
      exact Nat.one_pos
    obtain ⟨i, hi, hen⟩ := List.countP_pos_iff.1 hpos
    rw [Span.encloses_iff] at hen
    exact hout i hi (by omega)

end Ndf
