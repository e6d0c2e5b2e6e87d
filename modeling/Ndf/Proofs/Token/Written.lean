/-
# How tokens are written

A token that carries text is written as that text, between two marks if it is a string or a payload,
and the text has the form that goes with the kind of the token (`TokenKind.Written`): words are made
of letters, digits and underscores, a number has the digits of its notation, and the raw body of a
string or a payload ends where the first mark that closes it stands, whatever follows.

`tokenize_written` says so of all tokens of a source, with the slice of the source that each covers.
-/

import Ndf.Proofs.Token.Append

namespace Ndf

/-- A word: a letter or an underscore, then letters, digits and underscores. -/
def Word.IsWord : List Char → Prop
  | [] => False
  | c :: rest => Word.isStart c = true ∧ ∀ d ∈ rest, Word.isPart d = true

instance (text : List Char) : Decidable (Word.IsWord text) :=
  match text with
  | [] => isFalse id
  | c :: inside =>
    decidable_of_iff ((Word.isStart c && inside.all Word.isPart) = true)
      (by rw [Bool.and_eq_true, List.all_eq_true]; rfl)

/-- The forms of numbers: digits, digits behind `0x`, and digits around a point, of which one side
may be empty. -/
def NumberKind.Writes : NumberKind → List Char → Prop
  | .decimal, text => text ≠ [] ∧ ∀ c ∈ text, c.isDigit = true
  | .hex, text => ∃ x digits, text = '0' :: x :: digits ∧ (x = 'x' ∨ x = 'X') ∧ digits ≠ [] ∧
      ∀ c ∈ digits, Lexeme.isHexDigit c = true
  | .float, text => ∃ whole part, text = whole ++ '.' :: part ∧ (whole ≠ [] ∨ part ≠ []) ∧
      (∀ c ∈ whole, c.isDigit = true) ∧ ∀ c ∈ part, c.isDigit = true

/-- A text that can stand between two of these marks: the second mark is the first one to close. -/
def Quote.Encloses (quote : Quote) (raw : List Char) : Prop :=
  ∀ more, Lexeme.stringBody quote.char (raw ++ quote.char :: more) = (raw, quote.char :: more)

/-- A text that can stand between braces: the second brace matches the first. -/
def Lexeme.Balanced (raw : List Char) : Prop :=
  ∀ more, Lexeme.braceBody 0 (raw ++ '\x7d' :: more) = some (raw, more)

/-- A token of this kind can be written so.  Signs and broken tokens are not looked at. -/
def TokenKind.Written : TokenKind → List Char → Prop
  | .word text wordClass, written =>
    written = text.toList ∧ Word.IsWord written ∧ wordClass = Word.classify text
  | .number kind text, written => written = text.toList ∧ kind.Writes written
  | .string quote raw, written =>
    written = quote.char :: (raw.toList ++ [quote.char]) ∧ quote.Encloses raw.toList
  | .guidBody raw, written =>
    written = '\x7b' :: (raw.toList ++ ['\x7d']) ∧ Lexeme.Balanced raw.toList
  | _, _ => True

namespace Lexeme

/-! ### Bodies -/

/-- What is cut off in front of a quote mark ends there, whatever follows. -/
theorem stringBody_enclosed {mark : Char} (hm : mark ≠ '\\') {text inside rest : List Char}
    (h : stringBody mark text = (inside, mark :: rest)) (more : List Char) :
    stringBody mark (inside ++ mark :: more) = (inside, mark :: more) := by
  fun_induction stringBody mark text generalizing inside rest with
  | case1 => cases h
  | case2 d tail ih =>
    obtain ⟨rfl, hr⟩ := Prod.mk.inj h
    have := ih (Prod.ext rfl hr)
    simp [push, stringBody, this]
  | case3 d tail h1 hd =>
    obtain ⟨rfl, hr⟩ := Prod.mk.inj h
    obtain ⟨rfl, rfl⟩ := List.cons.inj hr
    rw [List.nil_append, stringBody, if_pos (.inl rfl)]
    exact fun c rest hc _ => hm hc
  | case4 d tail h1 hd ih =>
    obtain ⟨rfl, hr⟩ := Prod.mk.inj h
    have := ih (Prod.ext rfl hr)
    show stringBody mark (d :: ((stringBody mark tail).1 ++ mark :: more)) = _
    rw [stringBody, if_neg hd, this]
    · rfl
    · rintro e rest rfl he
      have hne : tail ≠ [] := by
        rintro rfl
        cases hr
      obtain ⟨f, tail, rfl⟩ := List.exists_cons_of_ne_nil hne
      exact h1 f tail rfl rfl

/-- What is cut off in front of a matching brace ends there, whatever follows. -/
theorem braceBody_enclosed {depth : Nat} {text inside rest : List Char}
    (h : braceBody depth text = some (inside, rest)) (more : List Char) :
    braceBody depth (inside ++ '\x7d' :: more) = some (inside, more) := by
  fun_induction braceBody depth text generalizing inside rest with
  | case1 => cases h
  | case2 depth c tail ih =>
    obtain ⟨⟨u, v⟩, hu, he⟩ := Option.map_eq_some_iff.1 h
    obtain ⟨rfl, rfl⟩ := Prod.mk.inj he
    simp [braceBody, ih hu, push]
  | case3 depth tail ih =>
    obtain ⟨⟨u, v⟩, hu, he⟩ := Option.map_eq_some_iff.1 h
    obtain ⟨rfl, rfl⟩ := Prod.mk.inj he
    simp [braceBody, ih hu, push]
  | case4 tail =>
    obtain ⟨rfl, rfl⟩ := Prod.mk.inj (Option.some.inj h)
    simp [braceBody]
  | case5 tail depth ih =>
    obtain ⟨⟨u, v⟩, hu, he⟩ := Option.map_eq_some_iff.1 h
    obtain ⟨rfl, rfl⟩ := Prod.mk.inj he
    simp [braceBody, ih hu, push]
  | case6 depth c tail h1 h2 h3 ih =>
    obtain ⟨⟨u, v⟩, hu, he⟩ := Option.map_eq_some_iff.1 h
    obtain ⟨rfl, rfl⟩ := Prod.mk.inj he
    have hne : tail ≠ [] := by
      rintro rfl
      cases hu
    obtain ⟨d, tail, rfl⟩ := List.exists_cons_of_ne_nil hne
    rw [List.cons_append, braceBody, ih hu]
    · rfl
    · exact fun e rest hc hr => h1 d tail hc rfl
    · exact h2
    · exact h3

/-! ### Every form of token -/

/-- A string is written with its quotes. -/
theorem string_written (quote : Quote) (body : List Char) :
    (string quote body).kind.Written (string quote body).text := by
  have hm : quote.char ≠ '\\' := by cases quote <;> decide
  unfold string
  split
  · rename_i inside c rest h
    split
    · rename_i hc
      subst hc
      refine ⟨by rw [String.toList_ofList]; rfl, fun more => ?_⟩
      rw [String.toList_ofList]
      exact stringBody_enclosed hm h more
    · trivial
  · trivial

/-- A payload is written with its braces. -/
theorem guidBody_written (body : List Char) :
    (guidBody body).kind.Written (guidBody body).text := by
  unfold guidBody
  split
  · rename_i inside rest h
    refine ⟨by rw [String.toList_ofList]; rfl, fun more => ?_⟩
    rw [String.toList_ofList]
    exact braceBody_enclosed h more
  · trivial

/-- A number to the base 16 is written with its front. -/
theorem hexNumber_written {x : Char} (hx : x = 'x' ∨ x = 'X') (rest : List Char) :
    (hexNumber x rest).kind.Written (hexNumber x rest).text := by
  simp only [hexNumber]
  split
  · trivial
  · rename_i h
    refine ⟨(String.toList_ofList).symm, x, _, rfl, hx, fun hnil => h (List.isEmpty_iff.2 hnil), ?_⟩
    exact List.all_eq_true.1 List.all_takeWhile

/-- A number without `0x` starts with a digit, or with a point in front of one. -/
theorem plainNumber_written {text : List Char} (h : text.head?.any Char.isDigit = true ∨
    ∃ rest, text = '.' :: rest ∧ rest.head?.any Char.isDigit = true) :
    (plainNumber text).kind.Written (plainNumber text).text := by
  have digits (text : List Char) : ∀ c ∈ text.takeWhile Char.isDigit, c.isDigit = true :=
    List.all_eq_true.1 List.all_takeWhile
  have some_digit {text : List Char} (h : text.head?.any Char.isDigit = true) :
      text.takeWhile Char.isDigit ≠ [] := by
    cases text with
    | nil => cases h
    | cons c rest =>
      rw [List.takeWhile_cons_of_pos (by simpa using h)]
      exact List.cons_ne_nil _ _
  simp only [plainNumber]
  split
  · rename_i rest hrest
    refine ⟨(String.toList_ofList).symm, _, _, rfl, ?_, digits text, digits rest⟩
    refine h.imp some_digit ?_
    rintro ⟨rest', rfl, hdigit⟩
    rw [List.dropWhile_cons_of_neg (by decide)] at hrest
    obtain ⟨-, rfl⟩ := List.cons.inj hrest
    exact some_digit hdigit
  · rename_i hrest
    refine ⟨(String.toList_ofList).symm, h.elim some_digit ?_, digits text⟩
    rintro ⟨rest', rfl, -⟩
    exact absurd (List.dropWhile_cons_of_neg (by decide)) (hrest rest')

/-- A number is written in digits. -/
theorem number_written {c : Char} {rest : List Char}
    (h : (c.isDigit || (c == '.' && rest.head?.any Char.isDigit)) = true) :
    (number (c :: rest)).kind.Written (number (c :: rest)).text := by
  unfold number
  split
  · exact hexNumber_written (.inl rfl) _
  · exact hexNumber_written (.inr rfl) _
  · refine plainNumber_written ?_
    rw [Bool.or_eq_true, Bool.and_eq_true, beq_iff_eq] at h
    exact h.imp id fun ⟨hc, hd⟩ => ⟨rest, by rw [hc], hd⟩

/-- A word is written as it is. -/
theorem word_written {c : Char} {rest : List Char} (h : Word.isStart c = true) :
    (word (c :: rest)).kind.Written (word (c :: rest)).text := by
  refine ⟨(String.toList_ofList).symm, ?_, rfl⟩
  show Word.IsWord ((c :: rest).takeWhile Word.isPart)
  rw [List.takeWhile_cons_of_pos (Word.isPart_of_isStart h)]
  exact ⟨h, List.all_eq_true.1 List.all_takeWhile⟩

/-- A sign is written as its kind says. -/
theorem symbol_written (c : Char) (rest : List Char) :
    (symbol c rest).kind.Written (symbol c rest).text := by
  unfold symbol
  split
  · rename_i kind h
    unfold withEquals at h
    split at h <;> cases h <;> trivial
  · show (single c).Written [c]
    unfold single
    split <;> trivial

/-- **Every token is written as its kind says.** -/
theorem scan_written (payload : Bool) (c : Char) (rest : List Char) :
    (scan payload c rest).kind.Written (scan payload c rest).text := by
  unfold scan
  split
  · unfold delimitedComment
    split <;> trivial
  · unfold delimitedComment
    split <;> trivial
  · trivial
  · split
    · exact guidBody_written _
    · unfold braceComment
      split <;> trivial
  · exact string_written .double _
  · exact string_written .single _
  · split
    · exact number_written ‹_›
    · split
      · exact word_written ‹_›
      · exact symbol_written _ _

end Lexeme

/-- A token covers a slice of a text that is written as its kind says. -/
def Token.Written (text : List Char) (t : Token) : Prop :=
  ∃ written, Text.slice? text t.span.start t.span.stop = some written ∧ t.kind.Written written

namespace Lexer

variable {text : List Char} {l : Lexer}

/-- A token covers the text that was scanned for it. -/
theorem At.scanned (h : At text l) (he : l.next.token.kind ≠ .eof) : ∃ payload c rest,
    l.next.token.kind = (Lexeme.scan payload c rest).kind ∧
    Text.slice? text l.next.token.span.start l.next.token.span.stop =
      some (Lexeme.scan payload c rest).text := by
  obtain ⟨before, c, rest, rfl, -, hk, hstart, hstop⟩ := h.stands he
  refine ⟨_, c, rest, hk, ?_⟩
  rw [hstart, hstop, ← Lexeme.scan_split (l.guid == .colon) c rest, Text.byteSize_append]
  exact Text.slice?_append ..

/-- The next token is written as its kind says. -/
theorem At.written (h : At text l) : l.next.token.Written text := by
  by_cases he : l.next.token.kind = .eof
  · obtain ⟨hs, ht⟩ := h.stop_eof he
    refine ⟨[], ?_, by rw [he]; trivial⟩
    rw [hs, ht]
    have := Text.slice?_append text [] []
    rwa [List.append_nil, List.append_nil, Text.byteSize_nil, Nat.add_zero] at this
  · obtain ⟨payload, c, rest, hk, hw⟩ := h.scanned he
    exact ⟨_, hw, hk ▸ Lexeme.scan_written payload c rest⟩

end Lexer

/-- **Every token of a source covers a slice of it that is written as its kind says.** -/
theorem tokenize_written (source : String) :
    ∀ t ∈ (tokenize source).tokens, t.Written source.toList := by
  intro t ht
  obtain ⟨l, h, rfl⟩ := exists_next_of_mem_tokens ht
  exact h.written

end Ndf
