/-
# Where strings end

`SPEC_FULL.md` E5: strings may not span lines.

Between its marks a string falls into plain characters and backslashes that each take the next
character along (`Text.Units`).  A character that no backslash takes along stands bare
(`Text.Bare`).  A string ends at the first bare mark of its own, and one that is not closed ends in
front of the first bare line end, or with the source.  So a line end stands in a string only where a
backslash takes it along; there it does (`tokenize_two_lines`).

`tokenize_strings` says so of all strings of a source, closed or not.
-/

import Ndf.Proofs.Token.Append

namespace Ndf

namespace Text

/-- A text that falls into plain characters and backslashes that each take the next character
along. -/
inductive Units : List Char → Prop where
  | nil : Units []
  | plain {c : Char} {text : List Char} (hc : c ≠ '\\') (h : Units text) : Units (c :: text)
  | escape {c : Char} {text : List Char} (h : Units text) : Units ('\\' :: c :: text)

/-- A character stands in a text and no backslash takes it along. -/
def Bare (c : Char) (text : List Char) : Prop :=
  ∃ front back, text = front ++ c :: back ∧ Units front

/-- A backslash takes along what stands behind a text. -/
def Taken (front : List Char) : Prop := ∃ before, front = before ++ ['\\'] ∧ Units before

/-- What stands behind a text stands bare or is taken along. -/
theorem units_or_taken (text : List Char) : Units text ∨ Taken text := by
  -- Two characters are split off where the first of them takes the second along.
  induction h : text.length using Nat.strongRecOn generalizing text with
  | ind n ih =>
    match text with
    | [] => exact .inl .nil
    | c :: text =>
      by_cases hc : c = '\\'
      · subst hc
        match text with
        | [] => exact .inr ⟨[], rfl, .nil⟩
        | d :: text =>
          refine (ih text.length (by simp at h; omega) text rfl).imp .escape ?_
          rintro ⟨before, rfl, hunits⟩
          exact ⟨'\\' :: d :: before, rfl, .escape hunits⟩
      · refine (ih text.length (by simp at h; omega) text rfl).imp (.plain hc) ?_
        rintro ⟨before, rfl, hunits⟩
        exact ⟨c :: before, rfl, .plain hc hunits⟩

/-- A character that ends a line. -/
def IsLineEnd (c : Char) : Prop := c = '\n' ∨ c = '\r'

/-- Nothing is no character. -/
theorem not_bare_nil {c : Char} : ¬ Bare c [] := by
  rintro ⟨front, back, h, -⟩
  exact absurd h.symm (by simp)

/-- What stands bare behind a plain character stands bare or is that character. -/
theorem Bare.of_plain {c d : Char} {text : List Char} (h : Bare c (d :: text)) (hd : d ≠ '\\') :
    c = d ∨ Bare c text := by
  obtain ⟨front, back, htext, hunits⟩ := h
  cases hunits with
  | nil => exact .inl (List.cons.inj htext).1.symm
  | plain _ h =>
    exact .inr ⟨_, back, (List.cons.inj htext).2, h⟩
  | escape _ => exact absurd (List.cons.inj htext).1 hd

/-- What stands bare in a text that starts with a backslash is that backslash or stands bare behind
the character that it takes along. -/
theorem Bare.of_escape {c d : Char} {text : List Char} (h : Bare c ('\\' :: d :: text)) :
    c = '\\' ∨ Bare c text := by
  obtain ⟨front, back, htext, hunits⟩ := h
  cases hunits with
  | nil => exact .inl (List.cons.inj htext).1.symm
  | plain hc _ => exact absurd (List.cons.inj htext).1.symm hc
  | escape h =>
    exact .inr ⟨_, back, (List.cons.inj (List.cons.inj htext).2).2, h⟩

/-- A backslash that ends a text stands bare alone. -/
theorem Bare.of_last {c : Char} (h : Bare c ['\\']) : c = '\\' := by
  obtain ⟨front, back, htext, hunits⟩ := h
  cases hunits with
  | nil => exact (List.cons.inj htext).1.symm
  | plain hc _ => exact absurd (List.cons.inj htext).1.symm hc
  | escape _ => exact absurd (List.cons.inj htext).2 (by simp)

/-- **A text without a bare mark is the shortest in front of one.** -/
theorem prefix_of_not_bare {mark : Char} {inside after front back : List Char}
    (hbare : ¬ Bare mark inside) (h : inside ++ mark :: after = front ++ mark :: back)
    (hfront : Units front) : inside <+: front := by
  rcases List.append_eq_append_iff.1 h with ⟨mid, rfl, -⟩ | ⟨mid, rfl, hmid⟩
  · exact List.prefix_append inside mid
  · cases mid with
    | nil => simp
    | cons d mid =>
      obtain ⟨rfl, -⟩ := List.cons.inj hmid
      exact absurd ⟨front, mid, rfl, hfront⟩ hbare

/-- Every line end in a text is taken along by a backslash. -/
def LineEndsTaken (text : List Char) : Prop :=
  ∀ front c back, text = front ++ c :: back → IsLineEnd c → Taken front

/-- Where no line break stands bare, each one has a backslash in front. -/
theorem lineEndsTaken_of_bare {text : List Char} (h : ∀ c, Bare c text → ¬ IsLineEnd c) :
    LineEndsTaken text := fun front c back htext hc =>
  (units_or_taken front).resolve_left fun hunits => h c ⟨front, back, htext, hunits⟩ hc

end Text

open Text (Units Bare IsLineEnd LineEndsTaken byteSize)

/-- A string that is closed: what stands inside is the shortest text in front of a bare mark, and
the line ends in it are taken along. -/
structure Quote.Closes (quote : Quote) (inside after : List Char) : Prop where
  units : Units inside
  shortest : ∀ front back, inside ++ quote.char :: after = front ++ quote.char :: back →
    Units front → inside <+: front
  lineEnds : LineEndsTaken inside

/-- A string that is not closed: no mark stands bare in it, the line ends in it are taken along, and
it is followed by a bare line end or by nothing. -/
structure Quote.Breaks (quote : Quote) (inside after : List Char) : Prop where
  unclosed : ¬ Bare quote.char inside
  lineEnds : LineEndsTaken inside
  stops : after = [] ∨ Units inside ∧ ∃ c more, after = c :: more ∧ IsLineEnd c

namespace Lexeme

variable {mark : Char}

/-- In what is cut off for a string no mark and no line end stands bare. -/
theorem stringBody_bare (hm : mark ≠ '\\') (text : List Char) {c : Char}
    (h : Bare c (stringBody mark text).1) : c ≠ mark ∧ ¬ IsLineEnd c := by
  have backslash : '\\' ≠ mark ∧ ¬ IsLineEnd '\\' := ⟨hm.symm, by simp [IsLineEnd]⟩
  fun_induction stringBody mark text with
  | case1 => exact absurd h Text.not_bare_nil
  | case2 d tail ih =>
    rcases h.of_escape with rfl | h
    · exact backslash
    · exact ih h
  | case3 d tail _ hd => exact absurd h Text.not_bare_nil
  | case4 d tail hescape hd ih =>
    by_cases hb : d = '\\'
    · -- A backslash that takes nothing along is the last character.
      have htail : tail = [] := by
        cases tail with
        | nil => rfl
        | cons e tail => exact absurd rfl (hescape e tail hb)
      subst hb htail
      obtain rfl := h.of_last
      exact backslash
    · rcases h.of_plain hb with rfl | h
      · simpa [IsLineEnd] using hd
      · exact ih h

/-- What is cut off for a string ends with the text, or in front of a mark or a line end that stands
bare. -/
theorem stringBody_stops (mark : Char) (text : List Char) : (stringBody mark text).2 = [] ∨
    Units (stringBody mark text).1 ∧ ∃ c more, (stringBody mark text).2 = c :: more ∧
      (c = mark ∨ IsLineEnd c) := by
  fun_induction stringBody mark text with
  | case1 => exact .inl rfl
  | case2 d tail ih => exact ih.imp id fun h => ⟨.escape h.1, h.2⟩
  | case3 d tail _ hd => exact .inr ⟨.nil, d, tail, rfl, hd⟩
  | case4 d tail hescape hd ih =>
    by_cases hb : d = '\\'
    · cases tail with
      | nil => exact .inl rfl
      | cons e tail => exact absurd rfl (hescape e tail hb)
    · exact ih.imp id fun h => ⟨.plain hb h.1, h.2⟩

end Lexeme

/-- Whether a token is a string, closed or not. -/
def TokenKind.isQuoted : TokenKind → Bool
  | .string .. | .error .unterminatedString => true
  | _ => false

/-- What is known of a token that is a string, closed or not: the text from its opening mark on. -/
def TokenKind.Quotes (kind : TokenKind) (written after : List Char) : Prop :=
  (∀ quote raw, kind = .string quote raw →
    written = quote.char :: (raw.toList ++ [quote.char]) ∧ quote.Closes raw.toList after) ∧
  (kind = .error .unterminatedString → ∃ quote : Quote, ∃ inside,
    written = quote.char :: inside ∧ quote.Breaks inside after)

/-- What is said of strings holds of everything else. -/
theorem TokenKind.Quotes.other {kind : TokenKind} {written after : List Char}
    (h : kind.isQuoted = false) : kind.Quotes written after := by
  refine ⟨fun quote raw hk => ?_, fun hk => ?_⟩ <;>
    · rw [hk] at h
      cases h

namespace Lexeme

/-- A string ends at the first quote that stands bare, or in front of a line break. -/
theorem string_quotes (quote : Quote) (body : List Char) :
    (string quote body).kind.Quotes (string quote body).text (string quote body).rest := by
  have hm : quote.char ≠ '\\' := by cases quote <;> decide
  have hbare {c : Char} := stringBody_bare (c := c) hm body
  have hstops := stringBody_stops quote.char body
  have unclosed : ¬ Bare quote.char (stringBody quote.char body).1 := fun h => (hbare h).1 rfl
  have lineEnds : LineEndsTaken (stringBody quote.char body).1 :=
    Text.lineEndsTaken_of_bare fun c hc => (hbare hc).2
  unfold string
  split
  · rename_i inside c rest h
    rw [h] at hstops unclosed lineEnds
    obtain ⟨hunits, d, more, hd, hlast⟩ := hstops.resolve_left (by simp)
    obtain ⟨rfl, rfl⟩ := List.cons.inj hd
    split
    · rename_i hc
      subst hc
      refine ⟨fun quote' raw hk => ?_, fun hk => nomatch hk⟩
      obtain ⟨rfl, rfl⟩ : quote = quote' ∧ String.ofList inside = raw := by simpa using hk
      rw [String.toList_ofList]
      exact ⟨rfl, hunits, fun front back => Text.prefix_of_not_bare unclosed, lineEnds⟩
    · rename_i hc
      exact ⟨fun _ _ hk => (nomatch hk), fun _ => ⟨quote, inside, rfl, unclosed, lineEnds,
        .inr ⟨hunits, c, rest, rfl, hlast.resolve_left hc⟩⟩⟩
  · rename_i inside h
    rw [h] at unclosed lineEnds
    exact ⟨fun _ _ hk => (nomatch hk), fun _ => ⟨quote, inside, rfl, unclosed, lineEnds, .inl rfl⟩⟩

/-- A number is no string. -/
theorem number_quotes (text : List Char) :
    (number text).kind.Quotes (number text).text (number text).rest := by
  have hex (x : Char) (rest : List Char) :
      (hexNumber x rest).kind.Quotes (hexNumber x rest).text (hexNumber x rest).rest := by
    simp only [hexNumber]
    split <;> exact .other rfl
  have plain : (plainNumber text).kind.Quotes (plainNumber text).text (plainNumber text).rest := by
    simp only [plainNumber]
    split <;> exact .other rfl
  unfold number
  split
  · exact hex _ _
  · exact hex _ _
  · exact plain

/-- Nor is a sign. -/
theorem symbol_quotes (c : Char) (rest : List Char) :
    (symbol c rest).kind.Quotes (symbol c rest).text (symbol c rest).rest := by
  unfold symbol
  split
  · rename_i h
    unfold withEquals at h
    split at h <;> cases h <;> exact .other rfl
  · refine .other ?_
    unfold single
    split <;> rfl

/-- **Every string ends where it should.** -/
theorem scan_quotes (payload : Bool) (c : Char) (rest : List Char) :
    (scan payload c rest).kind.Quotes (scan payload c rest).text (scan payload c rest).rest := by
  unfold scan
  split
  · unfold delimitedComment
    split <;> exact .other rfl
  · unfold delimitedComment
    split <;> exact .other rfl
  · exact .other rfl
  · split
    · unfold guidBody
      split <;> exact .other rfl
    · unfold braceComment
      split <;> exact .other rfl
  · exact string_quotes .double _
  · exact string_quotes .single _
  · split
    · exact number_quotes _
    · split
      · exact .other rfl
      · exact symbol_quotes _ _

end Lexeme

namespace Lexer

variable {text : List Char} {l : Lexer}

/-- What follows a token of a text, and what is known of it if it is a string. -/
theorem At.quotes (h : At text l) (he : l.next.token.kind ≠ .eof) : ∃ before written after,
    text = before ++ (written ++ after) ∧ l.next.token.span.start = byteSize before ∧
      l.next.token.span.stop = byteSize (before ++ written) ∧
      l.next.token.kind.Quotes written after := by
  obtain ⟨before, c, rest, rfl, -, hkind, hstart, hstop⟩ := h.stands he
  refine ⟨before, _, (Lexeme.scan (l.guid == .colon) c rest).rest, ?_, hstart, hstop, ?_⟩
  · rw [Lexeme.scan_split]
  · rw [hkind]
    exact Lexeme.scan_quotes ..

end Lexer

/-- **Strings end at the first bare mark, or with the line.**  The body of a string of a source is
the shortest text behind the opening mark in front of a bare mark of the same kind.  A string that
is not closed has no bare mark, and it ends with the source or directly in front of a bare line end.
In both of them a line end stands only where a backslash takes it along. -/
theorem tokenize_strings (source : String) :
    (∀ t ∈ (tokenize source).tokens, ∀ quote raw, t.kind = .string quote raw →
      ∃ before after, source.toList = before ++ quote.char :: (raw.toList ++ quote.char :: after) ∧
        t.span.start = byteSize before ∧
        t.span.stop = byteSize (before ++ quote.char :: (raw.toList ++ [quote.char])) ∧
        quote.Closes raw.toList after) ∧
    ∀ t ∈ (tokenize source).tokens, t.kind = .error .unterminatedString →
      ∃ quote : Quote, ∃ before inside after,
        source.toList = before ++ quote.char :: (inside ++ after) ∧
        t.span.start = byteSize before ∧ t.span.stop = byteSize (before ++ quote.char :: inside) ∧
        quote.Breaks inside after := by
  have standing : ∀ t ∈ (tokenize source).tokens, t.kind ≠ .eof → ∃ before written after,
      source.toList = before ++ (written ++ after) ∧ t.span.start = byteSize before ∧
        t.span.stop = byteSize (before ++ written) ∧ t.kind.Quotes written after := by
    intro t ht
    obtain ⟨l, h, rfl⟩ := exists_next_of_mem_tokens ht
    exact h.quotes
  refine ⟨fun t ht quote raw hk => ?_, fun t ht hk => ?_⟩
  · obtain ⟨before, written, after, htext, hstart, hstop, hquotes⟩ :=
      standing t ht (by rw [hk]; simp)
    obtain ⟨rfl, hcloses⟩ := hquotes.1 quote raw hk
    exact ⟨before, after, by simp [htext], hstart, hstop, hcloses⟩
  · obtain ⟨before, written, after, htext, hstart, hstop, hquotes⟩ :=
      standing t ht (by rw [hk]; simp)
    obtain ⟨quote, inside, rfl, hbreaks⟩ := hquotes.2 hk
    exact ⟨quote, before, inside, after, by simp [htext], hstart, hstop, hbreaks⟩

/-- **A string can stand on two lines.**  A backslash takes the line feed along, and the string goes
on behind it. -/
theorem tokenize_two_lines :
    ∃ t ∈ (tokenize "\"abc\\\ndef\"").tokens, t.kind = .string .double "abc\\\ndef" ∧
      '\n' ∈ Text.covered "\"abc\\\ndef\"".toList t.span := by
  decide +kernel

end Ndf
