/-
# What a report shows of a problem

`SPEC_FULL.md` E6, the rendering of a diagnostic.

A problem is shown in three lines: a header, the line of the source on which its span starts, and
carets under what the span covers of that line.  `Text.Marked` is a text cut around a span: the
lines in front, what stands on the line in front of the span, under it and behind it, and all that
follows.

The carets count the carriage returns at the end of a line, which the shown line leaves out.  So
they stand under the covered characters of the shown line and go on by one for each carriage return
behind it that the span covers (`render_lines`); they stay within the line where it covers none.
-/

import Ndf.Proofs.Nodes.Position
import Ndf.Proofs.Parser.Once
import Ndf.Report

namespace Ndf

open Text (byteSize isBlank)

/-! ### Lines -/

namespace Text

/-- The first line of a text is what stands in front of its first line feed. -/
theorem exists_firstLine (text : List Char) : ∃ back, text = firstLine text ++ back ∧
    (∀ c ∈ back.head?, c = '\n') ∧ '\n' ∉ firstLine text := by
  refine ⟨text.dropWhile (· != '\n'), List.takeWhile_append_dropWhile.symm, fun c hc => ?_,
    fun h => ?_⟩
  · have hstop := List.head?_dropWhile_not (· != '\n') text
    rw [Option.mem_def.1 hc] at hstop
    simpa using hstop
  · simpa using List.all_eq_true.1 List.all_takeWhile '\n' h

/-- The last line of a text is what stands behind its last line feed. -/
theorem exists_lastLine (text : List Char) : ∃ front, text = front ++ lastLine text ∧
    (∀ c ∈ front.getLast?, c = '\n') ∧ '\n' ∉ lastLine text := by
  obtain ⟨back, htext, hback, hline⟩ := exists_firstLine text.reverse
  refine ⟨back.reverse, ?_, fun c hc => hback c ?_, fun h => hline (List.mem_reverse.1 h)⟩
  · have hreverse := congrArg List.reverse htext
    rwa [List.reverse_reverse, List.reverse_append] at hreverse
  · rwa [List.getLast?_reverse] at hc

/-- What a line shows is all of it but the carriage returns at its end. -/
theorem exists_returns (text : List Char) : ∃ returns, text = dropReturns text ++ returns ∧
    ∀ c ∈ returns, c = '\r' := by
  refine ⟨(text.reverse.takeWhile (· == '\r')).reverse, ?_, fun c hc => ?_⟩
  · rw [dropReturns, ← List.reverse_append, List.takeWhile_append_dropWhile, List.reverse_reverse]
  · simpa using List.all_eq_true.1 List.all_takeWhile c (List.mem_reverse.1 hc)

/-- The first line of two texts starts with that of the first one, and goes on only behind all of
it. -/
theorem firstLine_append (word rest : List Char) :
    ∃ after, firstLine (word ++ rest) = firstLine word ++ after ∧
      (after = [] ∨ firstLine word = word) := by
  rw [firstLine, List.takeWhile_append]
  split
  · rename_i hlen
    have hall : word.takeWhile (· != '\n') = word :=
      (List.takeWhile_prefix _).eq_of_length hlen
    exact ⟨firstLine rest, by rw [firstLine, firstLine, hall], .inr hall⟩
  · exact ⟨[], (List.append_nil _).symm, .inl rfl⟩

/-- The line around a place: back to the last line break, on to the next, without the carriage
returns at its end. -/
theorem sourceLine_append {done rest : List Char} {s : Span} (hs : s.start = byteSize done) :
    sourceLine (done ++ rest) s = dropReturns (lastLine done ++ firstLine rest) := by
  have hstart : min s.start (byteSize (done ++ rest)) = byteSize done := by
    rw [hs, byteSize_append]
    omega
  simp only [sourceLine, hstart, takeBytes_append, dropBytes_byteSize_append]

/-- A text cut around a span that starts in it. -/
structure Marked (text : List Char) (s : Span) where
  /-- The lines in front. -/
  front : List Char
  /-- What stands on the line in front of the span. -/
  before : List Char
  /-- What the span covers of the line. -/
  under : List Char
  /-- What stands on the line behind the span. -/
  after : List Char
  /-- The end of the line and the lines behind. -/
  back : List Char
  text_eq : text = front ++ (before ++ (under ++ after)) ++ back
  front_ends : ∀ c ∈ front.getLast?, c = '\n'
  back_starts : ∀ c ∈ back.head?, c = '\n'
  one_line : '\n' ∉ before ++ (under ++ after)
  start_eq : s.start = byteSize (front ++ before)
  stop_eq : min s.stop (byteSize (front ++ (before ++ (under ++ after)))) =
    byteSize (front ++ before ++ under)

namespace Marked

variable {text : List Char} {s : Span}

/-- The line on which the span starts. -/
def line (m : Marked text s) : List Char := m.before ++ (m.under ++ m.after)

/-- The line without the carriage returns at its end. -/
def shown (m : Marked text s) : List Char := dropReturns m.line

/-- A text is cut around a span between two of its characters. -/
theorem exists_of_split {done word rest : List Char} (htext : text = done ++ (word ++ rest))
    (hstart : s.start = byteSize done) (hstop : s.stop = byteSize done + byteSize word) :
    ∃ m : Marked text s, m.before = lastLine done ∧ m.under = firstLine word ∧
      m.line = lastLine done ++ firstLine (word ++ rest) := by
  obtain ⟨front, hdone, hfront, hbefore⟩ := exists_lastLine done
  obtain ⟨back, hback, hnext, hline⟩ := exists_firstLine (word ++ rest)
  obtain ⟨after, hafter, hall⟩ := firstLine_append word rest
  obtain ⟨tail, htail, -, -⟩ := exists_firstLine word
  have hsize := congrArg byteSize hdone
  have hword := congrArg byteSize htail
  rw [byteSize_append] at hsize hword
  refine ⟨⟨front, lastLine done, firstLine word, after, back, ?_, hfront, hnext, ?_, ?_, ?_⟩, rfl,
    rfl, by rw [line, hafter]⟩
  · rw [← hafter, ← List.append_assoc front, ← hdone, List.append_assoc, ← hback, htext]
  · rw [← hafter]
    exact fun h => (List.mem_append.1 h).elim hbefore hline
  · rw [← hdone, hstart]
  · simp only [byteSize_append, hstop]
    rcases hall with rfl | hall
    · rw [byteSize_nil]
      omega
    · rw [hall]
      omega

/-- What the span covers of the line is shown up to the carriage returns at the end of the line. -/
theorem exists_kept (m : Marked text s) {c : Char} {rest : List Char} (hunder : m.under = c :: rest)
    (hc : c ≠ '\r') : ∃ kept returns more, m.under = kept ++ returns ∧ kept ≠ [] ∧
      m.shown = m.before ++ (kept ++ more) ∧ (∀ c ∈ returns, c = '\r') ∧
      (returns ≠ [] → more = []) := by
  obtain ⟨returns, hline, hreturns⟩ := exists_returns m.line
  have hsplit : m.shown ++ returns = m.before ++ [c] ++ (rest ++ m.after) := by
    rw [shown, ← hline, line, hunder]
    simp
  -- The first character under the span is shown, so the shown line reaches it.
  obtain ⟨mid, hshown, hrest⟩ : ∃ mid, m.shown = m.before ++ [c] ++ mid ∧
      rest ++ m.after = mid ++ returns := by
    rcases List.append_eq_append_iff.1 hsplit with ⟨mid, hbefore, hmid⟩ | ⟨mid, hshown, hrest⟩
    · rcases List.eq_nil_or_concat mid with rfl | ⟨mid', x, rfl⟩
      · exact ⟨[], by simpa using hbefore.symm, by simpa using hmid.symm⟩
      · obtain rfl : c = x := by
          have := congrArg List.getLast? hbefore
          simpa using this
        exact absurd (hreturns c (by simp [hmid])) hc
    · exact ⟨mid, hshown, hrest⟩
  rw [hunder]
  rcases List.append_eq_append_iff.1 hrest with ⟨more, rfl, hafter⟩ | ⟨covered, rfl, hcovered⟩
  · exact ⟨c :: rest, [], more, by simp, by simp, by simp [hshown], by simp, by simp⟩
  · exact ⟨c :: mid, covered, [], by simp, by simp, by simp [hshown],
      fun x hx => hreturns x (by simp [hcovered, hx]), by simp⟩

end Marked
end Text

/-! ### Where problems start -/

/-- A character that is no white space stands at an offset. -/
def Text.Begins (text : List Char) (n : Nat) : Prop :=
  ∃ done c rest, text = done ++ c :: rest ∧ n = byteSize done ∧ isBlank c = false

variable {source : String} {t : Token} {d : Diagnostic}

/-- A token starts with a character that is no white space, and so does the half of one. -/
theorem Lexer.At.begins {text : List Char} {l : Lexer} (h : At text l)
    (hk : l.next.token.kind ≠ .eof) : Text.Begins text l.next.token.span.start ∧
      (l.next.token.kind = .gtEq → Text.Begins text (l.next.token.span.start + 1)) := by
  obtain ⟨done, c, rest, rfl, hblank, hkind, hstart, -⟩ := h.stands hk
  refine ⟨⟨done, c, rest, rfl, hstart, hblank⟩, fun hgt => ?_⟩
  have hsplit := Lexeme.scan_split (l.guid == .colon) c rest
  rw [Lexeme.text_of_gtEq (hkind ▸ hgt), List.cons_append, List.cons.injEq] at hsplit
  obtain ⟨rfl, hrest⟩ := hsplit
  exact ⟨done ++ ['>'], '=', (Lexeme.scan (l.guid == .colon) '>' rest).rest,
    by rw [List.append_assoc]; exact congrArg (done ++ '>' :: ·) hrest.symm,
    by simp [hstart, Char.utf8Size], by decide⟩

/-- So do all tokens of a source. -/
theorem begins_of_mem_tokens (ht : t ∈ (tokenize source).tokens) (hk : t.kind ≠ .eof) :
    Text.Begins source.toList t.span.start ∧
      (t.kind = .gtEq → Text.Begins source.toList (t.span.start + 1)) := by
  obtain ⟨l, h, rfl⟩ := exists_next_of_mem_tokens ht
  exact h.begins hk

/-- What the grammar meets starts with a character that is no white space. -/
theorem Scene.Meets.begins (h : (Scene.ofText source).Meets t) :
    Text.Begins source.toList t.span.start := by
  have token {s : Token} (hs : s ∈ (TokenStream.ofText source).tokens) :=
    begins_of_mem_tokens (mem_visibleTokens ((ofText_eq source).1 ▸ hs)).1
      ((Scene.ofText source).seen s hs)
  rcases h with ht | ⟨s, hs, hk, rfl⟩
  · exact (token ht).1
  · exact (token hs).2 hk

/-- A problem that covers something starts with a character that is no white space. -/
theorem begins_of_mem_diagnostics (hd : d ∈ (parse source).diagnostics)
    (covers : d.span.start < d.span.stop) : Text.Begins source.toList d.span.start := by
  have hbound : d.span.stop ≤ byteSize source.toList := by
    obtain ⟨done, word, rest, htext, -, hstop, -⟩ := right_of_mem_diagnostics hd
    rw [htext, hstop, Text.byteSize_append, Text.byteSize_append]
    omega
  have hend : (Scene.ofText source).source.stop.span.start = byteSize source.toList :=
    TokenStream.start_stop source
  have next {c : Cursor} (hc : c.On (Scene.ofText source).tokens)
      (hs : d.span.start = (Scene.ofText source).next c) :
      Text.Begins source.toList d.span.start := by
    rcases hr : c.rest with _ | ⟨t, ts⟩
    · rw [hs, Scene.next_nil hr, hend] at covers
      omega
    · rw [hs, Scene.next_cons hr]
      exact Scene.Meets.begins (hc.mem_rest (by simp [hr]))
  rcases noted_of_mem_diagnostics hd with hd | hd | hd
  · obtain ⟨t, ht, hk, hspan⟩ := exists_token_of_mem_diagnostics hd
    exact hspan ▸ (begins_of_mem_tokens ht hk).1
  · cases hd with
    | token hmeets _ _ => exact hmeets.begins
    | direct _ hc hs => exact next hc hs
  · cases hd with
    | atEnd _ =>
      rw [show (Diagnostic.ofCause _ (Scene.ofText source).source.stop.span).span.start = _ from
        hend] at covers
      omega

/-- What a problem covers starts with a character that is no white space. -/
theorem exists_covered (hd : d ∈ (parse source).diagnostics)
    (covers : d.span.start < d.span.stop) : ∃ done c word rest,
      source.toList = done ++ (c :: word ++ rest) ∧ d.span.start = byteSize done ∧
        d.span.stop = byteSize done + byteSize (c :: word) ∧ isBlank c = false := by
  obtain ⟨done, word, rest, htext, hstart, hstop, -⟩ := right_of_mem_diagnostics hd
  obtain ⟨front, c, tail, hbegin, hfront, hblank⟩ := begins_of_mem_diagnostics hd covers
  obtain ⟨rfl, hword⟩ := Text.eq_of_byteSize (hbegin.symm.trans htext) (hfront.symm.trans hstart)
  have hne : word ≠ [] := by
    rintro rfl
    rw [hstart, hstop, Text.byteSize_nil] at covers
    omega
  obtain ⟨x, word, rfl⟩ := List.exists_cons_of_ne_nil hne
  obtain rfl : c = x := (List.cons.inj hword).1
  exact ⟨front, c, word, rest, htext, hstart, hstop, hblank⟩

/-- Without a mark in front, the column of a problem counts the characters of its line. -/
theorem column_of_mem_diagnostics (hd : d ∈ (parse source).diagnostics)
    (mark : source.toList.head? ≠ some '\uFEFF') {done rest : List Char}
    (htext : source.toList = done ++ rest) (hstart : d.span.start = byteSize done) :
    d.span.column = (Text.lastLine done).length + 1 := by
  obtain ⟨done', word, rest', htext', hstart', -, -, hcolumn⟩ := right_of_mem_diagnostics hd
  obtain ⟨rfl, -⟩ := Text.eq_of_byteSize (htext.symm.trans htext') (hstart.symm.trans hstart')
  have hmark : done.head? ≠ some '\uFEFF' := fun h => mark (by
    obtain ⟨body, rfl⟩ := List.head?_eq_some_iff.1 h
    rw [htext]
    rfl)
  rw [hcolumn, Text.withoutMark_of_head? hmark, Nat.add_comm]

/-! ### What problems say -/

namespace Lexeme

variable {cause : Diagnostic.Cause}

/-- What is said of an open comment is one line. -/
theorem oneLine_delimitedComment {kind : CommentKind} {a b c d : Char} {body : List Char}
    (hmark : OneLine (String.ofList [a, b]))
    (h : (delimitedComment kind a b c d body).problem = some cause) : OneLine cause.message := by
  unfold delimitedComment at h
  split at h
  · cases h
  · cases h
    exact .append (.append (by decide) hmark) (by decide)

/-- So is what is said of an open string. -/
theorem oneLine_string {quote : Quote} {body : List Char}
    (h : (Lexeme.string quote body).problem = some cause) : OneLine cause.message := by
  have unclosed : OneLine (Diagnostic.Cause.unclosedString quote.char).message := by
    cases quote <;> decide
  unfold Lexeme.string at h
  split at h
  · split at h
    · cases h
    · cases h
      exact unclosed
  · cases h
    exact unclosed

/-- So is what is said of a malformed number. -/
theorem oneLine_number {text : List Char} (h : (number text).problem = some cause) :
    OneLine cause.message := by
  have hex {x : Char} {rest : List Char} (h : (hexNumber x rest).problem = some cause) :
      OneLine cause.message := by
    unfold hexNumber at h
    simp only at h
    split at h
    · cases h
      decide
    · cases h
  unfold number at h
  split at h
  · exact hex h
  · exact hex h
  · unfold plainNumber at h
    simp only at h
    split at h <;> cases h

/-- So is whatever is said of a token. -/
theorem oneLine_problem {payload : Bool} {c : Char} {rest : List Char}
    (h : (scan payload c rest).problem = some cause) : OneLine cause.message := by
  unfold scan at h
  split at h
  · exact oneLine_delimitedComment (by decide) h
  · exact oneLine_delimitedComment (by decide) h
  · cases h
  · split at h
    · unfold guidBody at h
      split at h
      · cases h
      · cases h
        decide
    · unfold braceComment at h
      split at h
      · cases h
      · cases h
        decide
  · exact oneLine_string h
  · exact oneLine_string h
  · split at h
    · exact oneLine_number h
    · split at h
      · cases h
      · unfold symbol at h
        split at h <;> cases h

end Lexeme

/-- The message of a problem has no line feed. -/
theorem oneLine_of_mem_diagnostics (hd : d ∈ (parse source).diagnostics) : OneLine d.message := by
  rcases noted_of_mem_diagnostics hd with hd | hd | hd
  · obtain ⟨l, -, hd⟩ := exists_next_of_mem_problems hd
    by_cases he : l.next.token.kind = .eof
    · rw [Lexer.next_eq_eof (Lexer.next_of_eof he).1] at hd
      cases hd
    · obtain ⟨c, rest, hrest⟩ := Lexer.dropWhile_ne_nil he
      rw [Lexer.next_eq_scan hrest] at hd
      obtain ⟨cause, hcause, rfl⟩ := Option.map_eq_some_iff.1 hd
      exact Lexeme.oneLine_problem hcause
  · cases hd with
    | token _ _ h => exact h
    | direct h _ _ => exact h.oneLine
  · cases hd with
    | atEnd h => exact h

/-! ### Three lines -/

/-- The first line that is shown of a problem, with the name of its source. -/
def Diagnostic.header (name : String) (d : Diagnostic) : String :=
  name ++ ":" ++ toString d.span.line ++ ":" ++ toString d.span.column ++ ": error[" ++
    d.kind.label ++ "]: " ++ d.message

/-- A number in digits is one line. -/
theorem oneLine_toString (n : Nat) : OneLine (toString n) := by
  intro h
  have hdigits : '\n' ∈ Nat.toDigits 10 n := by simpa [Nat.toList_repr] using h
  exact absurd (Nat.isDigit_of_mem_toDigits (by decide) (by decide) hdigits) (by decide)

/-- So is the first line of a report, if the name of the file is. -/
theorem Diagnostic.oneLine_header {name : String} (hname : OneLine name)
    (hd : d ∈ (parse source).diagnostics) : OneLine (d.header name) :=
  have label : OneLine d.kind.label := by cases d.kind <;> decide
  .append (.append (.append (.append (.append (.append (.append (.append hname (by decide))
    (oneLine_toString _)) (by decide)) (oneLine_toString _)) (by decide)) label) (by decide))
      (oneLine_of_mem_diagnostics hd)

/-- **A problem is shown in three lines.**  For a source without a byte order mark and a name
without a line feed, a problem that covers something is shown as a header, the line on which its
span starts, without its line feed and the carriage returns in front of that, and carets.  The first
caret stands under the first character of the span, and there is one for each character that the
span covers of the line with its carriage returns: first the covered characters of the shown line,
then, if it covers all that is left of that, carriage returns behind it. -/
theorem Diagnostic.render_lines (name : String) (mark : source.toList.head? ≠ some '\uFEFF')
    (hname : OneLine name) (hd : d ∈ (parse source).diagnostics)
    (covers : d.span.start < d.span.stop) :
    ∃ m : Text.Marked source.toList d.span, OneLine (d.header name) ∧
      d.span.column = m.before.length + 1 ∧
      d.render name source = d.header name ++ "\n" ++
        "    " ++ String.ofList m.shown ++ "\n" ++
        "    " ++ String.ofList (List.replicate (d.span.column - 1) ' ') ++
          String.ofList (List.replicate m.under.length '^') ++ "\n" ∧
      ∃ kept returns more, m.under = kept ++ returns ∧ kept ≠ [] ∧
        m.shown = m.before ++ (kept ++ more) ∧ (∀ c ∈ returns, c = '\r') ∧
        (returns ≠ [] → more = []) := by
  obtain ⟨done, c, word, rest, htext, hstart, hstop, hblank⟩ := exists_covered hd covers
  have hfeed : c ≠ '\n' := by
    rintro rfl
    exact absurd hblank (by decide)
  have hreturn : c ≠ '\r' := by
    rintro rfl
    exact absurd hblank (by decide)
  obtain ⟨m, hbefore, hunder, hline⟩ := Text.Marked.exists_of_split htext hstart hstop
  -- The span covers a character of the line at least, its first one.
  have hcons : m.under = c :: Text.firstLine word := by
    rw [hunder, Text.firstLine, List.takeWhile_cons_of_pos (by simpa using hfeed), Text.firstLine]
  have hcolumn : d.span.column = m.before.length + 1 := by
    rw [hbefore, column_of_mem_diagnostics hd mark htext hstart]
  have hshown : Text.sourceLine source.toList d.span = m.shown := by
    rw [Text.Marked.shown, hline, ← Text.sourceLine_append hstart, htext]
  have hsize : byteSize source.toList = byteSize done + byteSize (c :: word) + byteSize rest := by
    rw [htext, Text.byteSize_append, Text.byteSize_append, Nat.add_assoc]
  have hcovered : Text.slice source.toList (min d.span.start (byteSize source.toList))
      (min d.span.stop (byteSize source.toList)) = c :: word := by
    rw [Nat.min_eq_left (by omega), Nat.min_eq_left (by omega), hstart, hstop, htext, Text.slice,
      Text.slice?_append, Option.getD_some]
  have hwidth : max m.under.length 1 = m.under.length := by
    rw [hcons, List.length_cons]
    omega
  refine ⟨m, oneLine_header hname hd, hcolumn, ?_, m.exists_kept hcons hreturn⟩
  unfold render
  dsimp only
  rw [if_neg (fun h => by omega), hshown, hcovered, ← hunder, hwidth]
  simp only [header, String.append_assoc]

/-- What is shown of a comment that is not closed. -/
theorem Diagnostic.render_lines_comment :
    ∃ d ∈ (parse "A is 1 // \n/* abc").diagnostics, d.span.start < d.span.stop ∧
      ∃ m : Text.Marked "A is 1 // \n/* abc".toList d.span,
        d.render "u" "A is 1 // \n/* abc" = d.header "u" ++ "\n" ++
          "    " ++ String.ofList m.shown ++ "\n" ++
          "    " ++ String.ofList (List.replicate (d.span.column - 1) ' ') ++
            String.ofList (List.replicate m.under.length '^') ++ "\n" := by
  have hd : ⟨⟨11, 17, 2, 1⟩, "unterminated comment, expected '*/'", .unterminatedComment⟩ ∈
      (parse "A is 1 // \n/* abc").diagnostics := by decide +kernel
  obtain ⟨m, -, -, hrender, -⟩ := render_lines "u" (by decide) (by decide) hd (by decide)
  exact ⟨_, hd, by decide, m, hrender⟩

/-- A span that covers a carriage return at the end of its line has one caret too many. -/
theorem Diagnostic.render_past_line : ∃ d ∈ (parse "/* abc\r\n").diagnostics,
    d.span.start < d.span.stop ∧ d.render "u" "/* abc\r\n" =
      "u:1:1: error[unterminated-comment]: unterminated comment, expected '*/'\n" ++
      "    /* abc\n" ++
      "    ^^^^^^^\n" :=
  ⟨⟨⟨0, 8, 1, 1⟩, "unterminated comment, expected '*/'", .unterminatedComment⟩,
    by decide +kernel, by decide, by decide +kernel⟩

end Ndf
