/-
# Lines and columns of tokens

A lexer counts lines and columns as it goes.  What it should have counted is a function of the text
in front: one line more than there are line breaks, and one column more than there are characters
behind the last of them, a byte order mark at the very front aside (`Span.Right`).

A lexer is on track if it stands where it would after moving over the text in front at once
(`Lexer.OnTrack`).  One step keeps it there, and so the spans of all tokens are right
(`tokenize_right`), and that of what is left of a `>=` behind its first half as well.
-/

import Ndf.Proofs.Parser.Scene

namespace Ndf

namespace Text

/-- A text without a byte order mark at its front. -/
def withoutMark : List Char → List Char
  | '\uFEFF' :: text => text
  | text => text

/-- A text without a byte order mark stays as it is. -/
theorem withoutMark_of_head? {text : List Char} (h : text.head? ≠ some '\uFEFF') :
    withoutMark text = text := by
  unfold withoutMark
  split
  · exact absurd rfl h
  · rfl

/-- Behind a line break a line is empty. -/
theorem lastLine_append_newline (text : List Char) : lastLine (text ++ ['\n']) = [] := by
  simp [lastLine]

/-- Another character is added to it. -/
theorem lastLine_append_other (text : List Char) {c : Char} (h : c ≠ '\n') :
    lastLine (text ++ [c]) = lastLine text ++ [c] := by
  simp [lastLine, h]

/-- A text starts in one way with a given number of bytes. -/
theorem eq_of_byteSize {a b c d : List Char} (h : a ++ b = c ++ d) (hs : byteSize a = byteSize c) :
    a = c ∧ b = d := by
  rcases List.append_eq_append_iff.1 h with ⟨mid, rfl, rfl⟩ | ⟨mid, rfl, rfl⟩
  · rw [byteSize_append] at hs
    obtain rfl : mid = [] := eq_nil_of_byteSize (by omega)
    simp
  · rw [byteSize_append] at hs
    obtain rfl : mid = [] := eq_nil_of_byteSize (by omega)
    simp

end Text

open Text (byteSize lastLine withoutMark)

namespace Position

/-- A line is counted for each line break. -/
theorem line_after (p : Position) (text : List Char) :
    (p.after text).line = p.line + text.count '\n' := by
  induction text generalizing p with
  | nil => rfl
  | cons c text ih =>
    rw [Position.after_cons, ih, List.count_cons, Position.advance]
    by_cases hc : c = '\n'
    · rw [if_pos hc, if_pos (by simpa using hc)]
      exact Nat.add_right_comm _ _ _
    · rw [if_neg hc, if_neg (by simpa using hc)]
      rfl

/-- From the start of a line on, the column counts the characters of the last line. -/
theorem column_after {p : Position} (hp : p.column = 1) (text : List Char) :
    (p.after text).column = 1 + (lastLine text).length := by
  induction text using List.reverseRecOn with
  | nil => exact hp
  | append_singleton text c ih =>
    rw [after_append, after_cons, after_nil, advance]
    by_cases hc : c = '\n'
    · rw [if_pos hc, hc, Text.lastLine_append_newline]
      rfl
    · rw [if_neg hc, Text.lastLine_append_other _ hc, List.length_append, ih]
      rfl

end Position

/-- A span is right for a text: its ends fall between characters of the text, its line is one more
than the line breaks in front of its start, and its column one more than the characters between the
last of them and its start, where a byte order mark at the front of the text does not count. -/
def Span.Right (text : List Char) (s : Span) : Prop :=
  ∃ before word rest, text = before ++ (word ++ rest) ∧ s.start = byteSize before ∧
    s.stop = byteSize before + byteSize word ∧ s.line = 1 + before.count '\n' ∧
    s.column = 1 + (lastLine (withoutMark before)).length

/-- The line and column of a span depend on its start alone. -/
theorem Span.Right.of_start {text : List Char} {a b : Span} (ha : a.Right text)
    (hs : b.start = a.start) (hl : b.line = a.line) (hc : b.column = a.column)
    (hb : (Text.slice? text b.start b.stop).isSome = true) : b.Right text := by
  obtain ⟨before, word, rest, rfl, hstart, -, hline, hcolumn⟩ := ha
  obtain ⟨word', hw⟩ := Option.isSome_iff_exists.1 hb
  obtain ⟨front, rest', htext, hfront, hstop⟩ := Text.eq_append_of_slice? hw
  obtain ⟨rfl, -⟩ := Text.eq_of_byteSize htext (by rw [hfront, hs, hstart])
  exact ⟨before, word', rest', htext, by rw [hs, hstart], hstop.symm, by rw [hl, hline],
    by rw [hc, hcolumn]⟩

namespace Lexer

variable {text : List Char} {l : Lexer}

/-- The text behind a byte order mark, and where it starts. -/
theorem ofText_split (text : List Char) : ∃ mark, text = mark ++ (ofText text).rest ∧
    (ofText text).position = ⟨byteSize mark, 1, 1⟩ ∧ mark.count '\n' = 0 ∧
    ∀ done rest, (ofText text).rest = done ++ rest → withoutMark (mark ++ done) = done := by
  by_cases hbom : text.head? = some '\uFEFF'
  · obtain ⟨body, rfl⟩ := List.head?_eq_some_iff.1 hbom
    exact ⟨['\uFEFF'], rfl, rfl, by decide, fun done rest _ => rfl⟩
  · rw [ofText_of_head? hbom]
    refine ⟨[], rfl, rfl, rfl, fun done rest h => Text.withoutMark_of_head? fun hd => hbom ?_⟩
    obtain ⟨body, hbody⟩ := List.head?_eq_some_iff.1 hd
    rw [show text = done ++ rest from h, ← List.nil_append done, hbody]
    rfl

/-- What lies between two places of a text has a right span. -/
theorem right_upTo {done word rest : List Char} (h : (ofText text).rest = done ++ (word ++ rest)) :
    (((ofText text).position.after done).upTo
      ((ofText text).position.after (done ++ word))).Right text := by
  obtain ⟨mark, htext, hpos, hcount, hmark⟩ := ofText_split text
  refine ⟨mark ++ done, word, rest, by rw [htext, h, List.append_assoc], ?_, ?_, ?_, ?_⟩
  · rw [Position.upTo, Position.offset_after, hpos, Text.byteSize_append]
  · show ((ofText text).position.after (done ++ word)).offset = _
    rw [Position.offset_after, hpos, Text.byteSize_append, Text.byteSize_append, Nat.add_assoc]
  · rw [Position.upTo, Position.line_after, hpos, List.count_append, hcount, Nat.zero_add]
  · rw [Position.upTo, Position.column_after (by rw [hpos]), hmark done _ h]

/-- A lexer stands where it would after moving over the text in front at once. -/
def OnTrack (text : List Char) (l : Lexer) : Prop :=
  ∃ done, (ofText text).rest = done ++ l.rest ∧ l.position = (ofText text).position.after done

/-- The first place is right. -/
theorem ofText_onTrack (text : List Char) : OnTrack text (ofText text) := ⟨[], rfl, rfl⟩

/-- The span of a token lies between two places. -/
theorem span_next (l : Lexer) : l.next.token.span = l.here.upTo l.next.next.position := by
  unfold next
  simp only
  split <;> rfl

/-- What a lexer cuts off stands behind what was in front of it. -/
theorem OnTrack.cut (h : OnTrack text l) : ∃ front word,
    (ofText text).rest = front ++ (word ++ l.next.next.rest) ∧
    l.here = (ofText text).position.after front ∧
    l.next.next.position = (ofText text).position.after (front ++ word) ∧
    (l.next.token.kind = .gtEq → word = ['>', '=']) := by
  obtain ⟨done, hrest, hpos⟩ := h
  have hhere : l.here = (ofText text).position.after (done ++ l.blank) := by
    rw [here, hpos, Position.after_append]
  have hblank := l.blank_append_dropWhile
  rcases hd : l.rest.dropWhile Text.isBlank with _ | ⟨c, rest⟩
  · rw [hd, List.append_nil] at hblank
    rw [next_eq_eof hd]
    exact ⟨done ++ l.blank, [], by rw [hrest, hblank]; simp, hhere, by rw [hhere, List.append_nil],
      fun hk => by cases hk⟩
  · rw [next_eq_scan hd]
    refine ⟨done ++ l.blank, _, ?_, hhere, ?_, Lexeme.text_of_gtEq⟩
    · rw [Lexeme.scan_split, ← hd, List.append_assoc, hblank, hrest]
    · rw [Position.after_append, ← hhere]

/-- **A lexer stays on track.** -/
theorem OnTrack.next (h : OnTrack text l) : OnTrack text l.next.next := by
  obtain ⟨front, word, hrest, -, hpos, -⟩ := h.cut
  exact ⟨front ++ word, by rw [hrest, List.append_assoc], hpos⟩

/-- A step of a lexer has right spans: that of its token, those of the two halves of a `>=`, and
that of the problem that the token shows. -/
structure Right (text : List Char) (x : LexStep) : Prop where
  token : x.token.span.Right text
  half : x.token.kind = .gtEq → x.token.secondHalf.span.Right text
  problem : ∀ d, x.problem = some d → d.span.Right text

/-- A token is at its line and column. -/
theorem OnTrack.right (h : OnTrack text l) (hat : At text l) : Right text l.next := by
  obtain ⟨front, word, hrest, hhere, hpos, hword⟩ := h.cut
  have hspan : l.next.token.span = ((ofText text).position.after front).upTo
      ((ofText text).position.after (front ++ word)) := by rw [span_next, hhere, hpos]
  have token : l.next.token.span.Right text := hspan ▸ right_upTo hrest
  refine ⟨token, fun hk => ?_, fun d hd => (hat.shows.problem d hd).symm ▸ token⟩
  rw [hword hk] at hrest hspan
  have hhalf : l.next.token.secondHalf.span = ((ofText text).position.after (front ++ ['>'])).upTo
      ((ofText text).position.after (front ++ ['>'] ++ ['='])) := by
    rw [Token.secondHalf, hspan]
    simp [Position.upTo, Position.advance, Char.utf8Size]
  have hsplit : (ofText text).rest = front ++ ['>'] ++ (['='] ++ l.next.next.rest) := by
    rw [hrest]
    simp
  exact hhalf ▸ right_upTo hsplit

/-- So are all that follow. -/
theorem OnTrack.steps_right (h : OnTrack text l) (hat : At text l) :
    ∀ x ∈ l.steps, Right text x := by
  fun_induction Lexer.steps l with
  | case1 l he =>
    intro x hx
    rw [List.mem_singleton.1 hx]
    exact h.right hat
  | case2 l he ih =>
    intro x hx
    rcases List.mem_cons.1 hx with rfl | hx
    · exact h.right hat
    · exact ih h.next hat.next x hx

end Lexer

/-- **The tokens of a source and the problems that they show have right spans.** -/
theorem tokenize_right (source : String) :
    (∀ t ∈ (tokenize source).tokens, t.span.Right source.toList ∧
      (t.kind = .gtEq → t.secondHalf.span.Right source.toList)) ∧
    ∀ d ∈ (tokenize source).diagnostics, d.span.Right source.toList := by
  have steps := (Lexer.ofText_onTrack source.toList).steps_right (Lexer.ofText_at source.toList)
  refine ⟨fun t ht => ?_, fun d hd => ?_⟩
  · obtain ⟨x, hx, rfl⟩ := List.mem_map.1 ht
    exact ⟨(steps x hx).token, (steps x hx).half⟩
  · obtain ⟨x, hx, hd⟩ := List.mem_filterMap.1 hd
    exact (steps x hx).problem d hd

end Ndf
