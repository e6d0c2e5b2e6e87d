/-
# Tokenizing loses nothing

`SPEC_FULL.md` §4.1: tokenizing never throws away what it does not know.

A `Lexer` stands somewhere in a source text: what it has left is the text behind that place, and
its offset is the size of the text before (`Lexer.At`).  One step passes over white space and cuts
a token off, and stands behind it afterwards (`Lexer.At.next`, `Lexer.slice?_next`), so the spans
of all tokens are slices of the source in order with nothing but white space between them.  The
last token is the end of the source, and it alone is empty.

`tokenize_lossless` puts this together for a whole source, with what `Token.joined` means.
-/

import Mathlib.Data.List.Chain
import Ndf.Token.Lexer

namespace Ndf

namespace Text

/-- Between two byte offsets, both of them between characters and in order, stands white space
only. -/
def BlankBetween (text : List Char) (a b : Nat) : Prop :=
  ∃ gap, slice? text a b = some gap ∧ ∀ c ∈ gap, isBlank c = true

/-- The number of bytes that a byte order mark takes at the front of a text. -/
def markSize (text : List Char) : Nat := if text.head? = some '\uFEFF' then 3 else 0

end Text

/-- How one token stands behind another in a text. -/
structure Token.Follows (text : List Char) (a b : Token) : Prop where
  ordered : a.span.stop ≤ b.span.start
  gap : Text.BlankBetween text a.span.stop b.span.start
  joined : b.joined = true ↔ b.span.start = a.span.stop ∧ a.kind.isTrivia = false

namespace Lexer

open Text (byteSize slice? isBlank)

variable {text : List Char} {l : Lexer}

/-- A lexer stands at a place of a text. -/
def At (text : List Char) (l : Lexer) : Prop :=
  ∃ before, text = before ++ l.rest ∧ l.position.offset = byteSize before

/-- The first place is one of the text. -/
theorem ofText_at (text : List Char) : At text (ofText text) := by
  unfold ofText
  split
  · exact ⟨['\uFEFF'], rfl, rfl⟩
  · exact ⟨[], rfl, rfl⟩

/-- It lies behind the byte order mark. -/
theorem offset_ofText (text : List Char) : (ofText text).position.offset = Text.markSize text := by
  unfold ofText Text.markSize
  split
  · rfl
  · rename_i h
    rw [if_neg]
    · rfl
    · intro hc
      obtain ⟨rest, rfl⟩ := List.head?_eq_some_iff.1 hc
      exact h rest rfl

/-- Without a mark it is the origin. -/
theorem ofText_of_head? {text : List Char} (h : text.head? ≠ some '\uFEFF') :
    ofText text = ⟨text, Position.origin, false, .none⟩ := by
  unfold ofText
  split
  · exact absurd rfl h
  · rfl

/-- What stands in front of the next token. -/
def blank (l : Lexer) : List Char := l.rest.takeWhile isBlank

/-- The place of the next token. -/
def here (l : Lexer) : Position := l.position.after l.blank

/-- What is passed over is white space. -/
theorem isBlank_of_mem_blank {c : Char} (h : c ∈ l.blank) : isBlank c = true :=
  List.all_eq_true.1 List.all_takeWhile c h

/-- It stands in front of the next token. -/
theorem blank_append_dropWhile (l : Lexer) : l.blank ++ l.rest.dropWhile isBlank = l.rest :=
  List.takeWhile_append_dropWhile

/-- A token is joined if nothing is passed over and no comment stands before it. -/
theorem joined_next (l : Lexer) : l.next.token.joined = (l.blank.isEmpty && !l.afterComment) := by
  unfold next
  simp only
  split <;> rfl

/-- It starts behind the white space. -/
theorem start_next (l : Lexer) : l.next.token.span.start = l.here.offset := by
  unfold next
  simp only
  split <;> rfl

/-- It ends where the next place is. -/
theorem stop_next (l : Lexer) : l.next.token.span.stop = l.next.next.position.offset := by
  unfold next
  simp only
  split <;> rfl

/-- The end of a source is empty and stands where no text is left. -/
theorem next_of_eof (h : l.next.token.kind = .eof) :
    l.rest.dropWhile isBlank = [] ∧ l.next.next.rest = [] ∧ l.next.next.position = l.here := by
  revert h
  unfold next
  simp only
  split
  · rename_i hd
    exact fun _ => ⟨hd, rfl, rfl⟩
  · exact fun h => absurd h (Lexeme.scan_kind_ne_eof _ _ _)

/-- Every other token covers the text between its place and the place behind it. -/
theorem next_of_ne_eof (h : l.next.token.kind ≠ .eof) :
    ∃ word, word ≠ [] ∧ l.rest = l.blank ++ (word ++ l.next.next.rest) ∧
      l.next.next.position = l.here.after word ∧
      l.next.next.afterComment = l.next.token.kind.isTrivia := by
  have split := l.blank_append_dropWhile
  revert h
  unfold next
  simp only
  split
  · exact fun h => absurd rfl h
  · rename_i c rest hd
    intro _
    refine ⟨_, Lexeme.scan_text_ne_nil _ c rest, ?_, rfl, rfl⟩
    rw [Lexeme.scan_split, ← hd, split]

/-- The place behind a token is one of the text. -/
theorem At.next (h : At text l) : At text l.next.next := by
  obtain ⟨before, rfl, hb⟩ := h
  by_cases he : l.next.token.kind = .eof
  · obtain ⟨hd, hr, hp⟩ := next_of_eof he
    refine ⟨before ++ l.rest, by rw [hr, List.append_nil], ?_⟩
    rw [hp, here, Position.offset_after, hb, Text.byteSize_append]
    congr 2
    rw [← l.blank_append_dropWhile, hd, List.append_nil]
  · obtain ⟨word, -, hr, hp, -⟩ := next_of_ne_eof he
    refine ⟨before ++ (l.blank ++ word), by rw [hr]; simp, ?_⟩
    rw [hp, here, Position.offset_after, Position.offset_after, hb]
    simp only [Text.byteSize_append]
    omega

/-- All steps from a place of a text on are made at places of it. -/
theorem At.exists_next {x : LexStep} (h : At text l) (hx : x ∈ l.steps) :
    ∃ l', At text l' ∧ l'.next = x := by
  fun_induction steps l with
  | case1 l he => exact ⟨l, h, (List.mem_singleton.1 hx).symm⟩
  | case2 l he ih =>
    rcases List.mem_cons.1 hx with rfl | hx
    · exact ⟨l, h, rfl⟩
    · exact ih h.next hx

/-- **Only white space is passed over.** -/
theorem At.blankBetween (h : At text l) :
    Text.BlankBetween text l.position.offset l.next.token.span.start := by
  obtain ⟨before, rfl, hb⟩ := h
  refine ⟨l.blank, ?_, fun c => isBlank_of_mem_blank⟩
  have := Text.slice?_append before l.blank (l.rest.dropWhile isBlank)
  rwa [blank_append_dropWhile, ← hb, ← Position.offset_after, ← here, ← start_next] at this

/-- **A token covers a slice of the source.** -/
theorem At.slice?_next (h : At text l) (he : l.next.token.kind ≠ .eof) :
    ∃ word, word ≠ [] ∧
      slice? text l.next.token.span.start l.next.token.span.stop = some word ∧
      l.next.token.span.stop = l.next.token.span.start + byteSize word := by
  obtain ⟨before, rfl, hb⟩ := h
  obtain ⟨word, hw, hr, hp, -⟩ := next_of_ne_eof he
  have hs : l.next.token.span.start = byteSize (before ++ l.blank) := by
    rw [start_next, here, Position.offset_after, hb, Text.byteSize_append]
  have ht : l.next.token.span.stop = l.next.token.span.start + byteSize word := by
    rw [stop_next, hp, Position.offset_after, start_next]
  refine ⟨word, hw, ?_, ht⟩
  rw [ht, hs, hr, ← List.append_assoc]
  exact Text.slice?_append ..

/-- **A token is joined if nothing stands before it and no comment ends there.** -/
theorem joined_next_iff (l : Lexer) : l.next.token.joined = true ↔
    l.next.token.span.start = l.position.offset ∧ l.afterComment = false := by
  rw [joined_next, start_next, here, Position.offset_after, Bool.and_eq_true, List.isEmpty_iff,
    Bool.not_eq_true']
  refine and_congr_left fun _ => ⟨fun h => by rw [h]; rfl, fun h => ?_⟩
  by_contra hne
  have := Text.byteSize_pos hne
  omega

/-- Two tokens behind each other have only white space between them. -/
theorem At.follows (h : At text l) (he : l.next.token.kind ≠ .eof) :
    l.next.token.Follows text l.next.next.next.token := by
  obtain ⟨-, -, -, -, hc⟩ := next_of_ne_eof he
  refine ⟨?_, ?_, ?_⟩
  · rw [start_next, here, Position.offset_after, stop_next]
    exact Nat.le_add_right ..
  · rw [stop_next]
    exact h.next.blankBetween
  · rw [joined_next_iff, stop_next, hc]

/-- The final token stands at the end of the text. -/
theorem At.stop_eof (h : At text l) (he : l.next.token.kind = .eof) :
    l.next.token.span.start = byteSize text ∧ l.next.token.span.stop = byteSize text := by
  obtain ⟨hd, hr, hp⟩ := next_of_eof he
  obtain ⟨before, hb, ho⟩ := h.next
  rw [start_next, stop_next, ← hp, ho, hb, hr, List.append_nil]
  exact ⟨rfl, rfl⟩

/-- The next token is the first of those that follow. -/
theorem head?_steps (l : Lexer) : l.steps.head? = some l.next := by
  rw [steps]
  split <;> rfl

/-- What holds of the tokens from a place on: all but the last cover a slice of the text, the last
is its end, and each follows the one before. -/
structure Cover (text : List Char) (tokens : List Token) : Prop where
  covers : ∀ t ∈ tokens.dropLast, t.kind ≠ .eof ∧ t.span.start < t.span.stop ∧
    ∃ word, slice? text t.span.start t.span.stop = some word
  last : ∃ t, tokens.getLast? = some t ∧ t.kind = .eof ∧
    t.span.start = byteSize text ∧ t.span.stop = byteSize text
  chain : tokens.IsChain (Token.Follows text)

/-- **The tokens from a place on cover the text behind it.** -/
theorem At.cover (h : At text l) : Cover text (l.steps.map LexStep.token) := by
  fun_induction steps l with
  | case1 l he =>
    exact ⟨fun _ h => absurd h List.not_mem_nil, ⟨_, rfl, he, h.stop_eof he⟩, .singleton _⟩
  | case2 l he ih =>
    obtain ⟨covers, last, chain⟩ := ih h.next
    obtain ⟨more, hm⟩ := List.head?_eq_some_iff.1 l.next.next.head?_steps
    rw [hm] at covers last chain ⊢
    obtain ⟨word, hw, hs, ht⟩ := h.slice?_next he
    have := Text.byteSize_pos hw
    refine ⟨?_, last, .cons_cons (h.follows he) chain⟩
    intro t hmem
    rcases List.mem_cons.1 hmem with rfl | hmem
    · exact ⟨he, by omega, word, hs⟩
    · exact covers t hmem

end Lexer

/-- A token of a source is the next one at a place of it. -/
theorem exists_next_of_mem_tokens {source : String} {t : Token}
    (ht : t ∈ (tokenize source).tokens) :
    ∃ l, Lexer.At source.toList l ∧ l.next.token = t := by
  obtain ⟨x, hx, rfl⟩ := List.mem_map.1 ht
  obtain ⟨l, h, rfl⟩ := (Lexer.ofText_at source.toList).exists_next hx
  exact ⟨l, h, rfl⟩

/-- A problem that tokenizing reports is one of the next token at a place of the source. -/
theorem exists_next_of_mem_problems {source : String} {d : Diagnostic}
    (hd : d ∈ (tokenize source).diagnostics) :
    ∃ l, Lexer.At source.toList l ∧ l.next.problem = some d := by
  obtain ⟨x, hx, hd⟩ := List.mem_filterMap.1 hd
  obtain ⟨l, h, rfl⟩ := (Lexer.ofText_at source.toList).exists_next hx
  exact ⟨l, h, hd⟩

/-- The tokens of a source cover it. -/
theorem cover_tokenize (source : String) :
    Lexer.Cover source.toList (tokenize source).tokens := (Lexer.ofText_at source.toList).cover

/-- The first token of a source. -/
theorem head?_tokenize (source : String) :
    (tokenize source).tokens.head? = some (Lexer.ofText source.toList).next.token := by
  simp [tokenize, Lexer.head?_steps]

/-- In front of the first token, behind a byte order mark, stands white space only. -/
theorem blankBetween_ofText (source : String) :
    Text.BlankBetween source.toList (Text.markSize source.toList)
      (Lexer.ofText source.toList).next.token.span.start := by
  rw [← Lexer.offset_ofText source.toList]
  exact (Lexer.ofText_at source.toList).blankBetween

/-- **Tokenizing is lossless.**  The tokens of a source are in order and do not overlap, all of
them but the last cover something, and the last is the end of the source.  Between two tokens, and
in front of the first behind a byte order mark, stands white space only.  A token is joined exactly
if it starts where the one before ends and that is no comment; the first is if it starts where the
source does. -/
theorem tokenize_lossless (source : String) :
    Lexer.Cover source.toList (tokenize source).tokens ∧
    ∃ first, (tokenize source).tokens.head? = some first ∧
      Text.BlankBetween source.toList (Text.markSize source.toList) first.span.start ∧
      (first.joined = true ↔ first.span.start = Text.markSize source.toList) := by
  refine ⟨cover_tokenize source, _, head?_tokenize source, blankBetween_ofText source, ?_⟩
  have comment : (Lexer.ofText source.toList).afterComment = false := by
    unfold Lexer.ofText
    split <;> rfl
  rw [Lexer.joined_next_iff, Lexer.offset_ofText, comment]
  simp

end Ndf
