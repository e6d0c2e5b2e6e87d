/-
# Tokenizing two texts behind each other

A text whose tokens show no problem is cut in the same way if a line break and any other text
follow (`Lexer.steps_append`): every form of token ends at a line break, or is broken by the end
of the text.  What follows is then cut as it is on its own, all spans moved
(`Lexer.steps_shift`); only the first token knows that something stands before it.
-/

import Ndf.Proofs.Token.Lossless

namespace Ndf

namespace Lexeme

/-- The same token with more text behind it. -/
def extend (lexeme : Lexeme) (more : List Char) : Lexeme :=
  { lexeme with rest := lexeme.rest ++ more }

/-- What is taken ends in front of a character that stops it. -/
theorem takeWhile_stop {p : Char → Bool} {x : Char} (hx : p x = false) (a b : List Char) :
    (a ++ x :: b).takeWhile p = a.takeWhile p := by
  induction a with
  | nil => rw [List.nil_append, List.takeWhile_cons_of_neg (by simp [hx]), List.takeWhile_nil]
  | cons c a ih =>
    rw [List.cons_append, List.takeWhile_cons, List.takeWhile_cons, ih]

/-- What is dropped ends there as well. -/
theorem dropWhile_stop {p : Char → Bool} {x : Char} (hx : p x = false) (a b : List Char) :
    (a ++ x :: b).dropWhile p = a.dropWhile p ++ x :: b := by
  induction a with
  | nil => rw [List.nil_append, List.dropWhile_cons_of_neg (by simp [hx])]; rfl
  | cons c a ih =>
    rw [List.cons_append, List.dropWhile_cons, List.dropWhile_cons, ih]
    split <;> rfl

/-- A mark that was found is found in a longer text. -/
theorem cutBehind_append {a b : Char} {text inside rest : List Char}
    (h : cutBehind a b text = some (inside, rest)) (more : List Char) :
    cutBehind a b (text ++ more) = some (inside, rest ++ more) := by
  fun_induction cutBehind a b text generalizing inside rest with
  | case1 x y tail hxy =>
    obtain ⟨rfl, rfl⟩ := Prod.mk.inj (Option.some.inj h)
    simp [cutBehind, hxy]
  | case2 x y tail hxy ih =>
    obtain ⟨⟨u, v⟩, hu, he⟩ := Option.map_eq_some_iff.1 h
    obtain ⟨rfl, rfl⟩ := Prod.mk.inj he
    have := ih hu
    rw [List.cons_append] at this
    rw [List.cons_append, List.cons_append, cutBehind, if_neg hxy, this]
    rfl
  | case3 => cases h

/-- So is a closing brace. -/
theorem braceBody_append {depth : Nat} {text inside rest : List Char}
    (h : braceBody depth text = some (inside, rest)) (more : List Char) :
    braceBody depth (text ++ more) = some (inside, rest ++ more) := by
  fun_induction braceBody depth text generalizing inside rest with
  | case1 => cases h
  | case2 depth c tail ih =>
    obtain ⟨⟨u, v⟩, hu, he⟩ := Option.map_eq_some_iff.1 h
    obtain ⟨rfl, rfl⟩ := Prod.mk.inj he
    simp [braceBody, ih hu, push]
  | case3 depth tail ih =>
    obtain ⟨⟨u, v⟩, hu, he⟩ := Option.map_eq_some_iff.1 h
    obtain ⟨rfl, rfl⟩ := Prod.mk.inj he
    simp [braceBody, ih hu, push]
  | case4 tail =>
    obtain ⟨rfl, rfl⟩ := Prod.mk.inj (Option.some.inj h)
    simp [braceBody]
  | case5 tail depth ih =>
    obtain ⟨⟨u, v⟩, hu, he⟩ := Option.map_eq_some_iff.1 h
    obtain ⟨rfl, rfl⟩ := Prod.mk.inj he
    simp [braceBody, ih hu, push]
  | case6 depth c tail h1 h2 h3 ih =>
    obtain ⟨⟨u, v⟩, hu, he⟩ := Option.map_eq_some_iff.1 h
    obtain ⟨rfl, rfl⟩ := Prod.mk.inj he
    have hne : tail ≠ [] := by
      rintro rfl
      cases hu
    obtain ⟨d, tail, rfl⟩ := List.exists_cons_of_ne_nil hne
    have := ih hu
    rw [List.cons_append] at this
    rw [List.cons_append, List.cons_append, braceBody, this]
    · rfl
    · exact fun c rest hc hr => h1 d tail hc rfl
    · exact h2
    · exact h3

/-- So is the end of a string, a quote or a line break. -/
theorem stringBody_append {mark c : Char} (hm : mark ≠ '\\') {text inside rest : List Char}
    (h : stringBody mark text = (inside, c :: rest)) (more : List Char) :
    stringBody mark (text ++ more) = (inside, c :: rest ++ more) := by
  fun_induction stringBody mark text generalizing inside rest with
  | case1 => cases h
  | case2 d tail ih =>
    obtain ⟨rfl, hr⟩ := Prod.mk.inj h
    have := ih (Prod.ext rfl hr)
    simp only [List.cons_append] at this
    simp [stringBody, this, push]
  | case3 d tail h1 hd =>
    obtain ⟨rfl, hr⟩ := Prod.mk.inj h
    obtain ⟨rfl, rfl⟩ := List.cons.inj hr
    rw [List.cons_append, stringBody, if_pos hd]
    rintro e rest rfl -
    rcases hd with hd | hd | hd
    · exact hm hd.symm
    · cases hd
    · cases hd
  | case4 d tail h1 hd ih =>
    obtain ⟨rfl, hr⟩ := Prod.mk.inj h
    have hne : tail ≠ [] := by
      rintro rfl
      cases hr
    obtain ⟨e, tail, rfl⟩ := List.exists_cons_of_ne_nil hne
    have := ih (Prod.ext rfl hr)
    rw [List.cons_append] at this
    rw [List.cons_append, List.cons_append, stringBody, if_neg hd, this]
    · rfl
    · exact fun x xs hx hxs => h1 e tail hx rfl

/-- A comment that is closed is the same in a longer text. -/
theorem delimitedComment_append {kind : CommentKind} {a b c d : Char} {body : List Char}
    (h : (delimitedComment kind a b c d body).problem = none) (more : List Char) :
    delimitedComment kind a b c d (body ++ more) =
      (delimitedComment kind a b c d body).extend more := by
  unfold delimitedComment at h ⊢
  split at h
  · rename_i inside rest hcut
    rw [cutBehind_append hcut more]
    rfl
  · cases h

/-- So is one in braces. -/
theorem braceComment_append {body : List Char} (h : (braceComment body).problem = none)
    (more : List Char) : braceComment (body ++ more) = (braceComment body).extend more := by
  unfold braceComment at h ⊢
  split at h
  · rename_i inside rest hcut
    rw [braceBody_append hcut more]
    rfl
  · cases h

/-- So is a payload. -/
theorem guidBody_append {body : List Char} (h : (guidBody body).problem = none)
    (more : List Char) : guidBody (body ++ more) = (guidBody body).extend more := by
  unfold guidBody at h ⊢
  split at h
  · rename_i inside rest hcut
    rw [braceBody_append hcut more]
    rfl
  · cases h

/-- So is a string. -/
theorem string_append {quote : Quote} {body : List Char} (h : (string quote body).problem = none)
    (more : List Char) : string quote (body ++ more) = (string quote body).extend more := by
  unfold string at h ⊢
  split at h
  · rename_i inside c rest hcut
    rw [stringBody_append (by cases quote <;> decide) hcut more]
    split at h
    · rename_i hc
      simp only [List.cons_append, if_pos hc]
      rfl
    · cases h
  · cases h

section LineBreak

variable {rest : List Char} (y : List Char)

/-- A comment up to the end of the line ends at a line break. -/
theorem lineComment_append (text : List Char) :
    lineComment (text ++ '\n' :: y) = (lineComment text).extend ('\n' :: y) := by
  simp only [lineComment, takeWhile_stop (p := fun c => c != '\n' && c != '\r') (x := '\n') rfl,
    dropWhile_stop (p := fun c => c != '\n' && c != '\r') (x := '\n') rfl]
  rfl

/-- So does a number to the base 16. -/
theorem hexNumber_append (x : Char) (text : List Char) :
    hexNumber x (text ++ '\n' :: y) = (hexNumber x text).extend ('\n' :: y) := by
  have ht := takeWhile_stop (p := isHexDigit) (x := '\n') (by decide) text y
  have hd := dropWhile_stop (p := isHexDigit) (x := '\n') (by decide) text y
  simp only [hexNumber, ht, hd]
  split <;> rfl

/-- So does another number. -/
theorem plainNumber_append (text : List Char) :
    plainNumber (text ++ '\n' :: y) = (plainNumber text).extend ('\n' :: y) := by
  have ht (text : List Char) := takeWhile_stop (p := Char.isDigit) (x := '\n') (by decide) text y
  have hd (text : List Char) := dropWhile_stop (p := Char.isDigit) (x := '\n') (by decide) text y
  unfold plainNumber
  rw [ht, hd]
  cases hrest : text.dropWhile Char.isDigit with
  | nil => rfl
  | cons c rest =>
    by_cases hc : c = '.'
    · subst hc
      simp only [List.cons_append, ht, hd]
      rfl
    · rw [List.cons_append]
      split
      · rename_i he
        exact absurd (List.cons.inj he).1 hc
      · split
        · rename_i he
          exact absurd (List.cons.inj he).1 hc
        · rfl

/-- So does any number. -/
theorem number_append (c : Char) (rest : List Char) :
    number (c :: (rest ++ '\n' :: y)) = (number (c :: rest)).extend ('\n' :: y) := by
  by_cases hx : c = '0' ∧ (rest.head? = some 'x' ∨ rest.head? = some 'X')
  · obtain ⟨rfl, hx | hx⟩ := hx
    · obtain ⟨tail, rfl⟩ := List.head?_eq_some_iff.1 hx
      exact hexNumber_append y 'x' tail
    · obtain ⟨tail, rfl⟩ := List.head?_eq_some_iff.1 hx
      exact hexNumber_append y 'X' tail
  · have plain (text : List Char)
        (h : ¬ (text.head? = some 'x' ∨ text.head? = some 'X') ∨ c ≠ '0') :
        number (c :: text) = plainNumber (c :: text) := by
      unfold number
      split
      · simp_all
      · simp_all
      · rfl
    rw [plain rest (by tauto), plain (rest ++ '\n' :: y)]
    · exact plainNumber_append y (c :: rest)
    · cases rest with
      | nil => simp
      | cons d rest =>
        rw [List.cons_append, List.head?_cons]
        rw [List.head?_cons] at hx
        tauto

/-- So does a word. -/
theorem word_append (text : List Char) :
    word (text ++ '\n' :: y) = (word text).extend ('\n' :: y) := by
  unfold word
  rw [takeWhile_stop (x := '\n') (by decide), dropWhile_stop (x := '\n') (by decide)]
  rfl

/-- A sign is one character in front of what is no sign of equality. -/
theorem symbol_other (c : Char) {rest : List Char} (h : rest.head? ≠ some '=') :
    symbol c rest = { kind := single c, text := [c], rest := rest } := by
  unfold symbol
  split
  · exact absurd rfl h
  · rfl

/-- So it is in front of a line break. -/
theorem symbol_append (c : Char) (rest : List Char) :
    symbol c (rest ++ '\n' :: y) = (symbol c rest).extend ('\n' :: y) := by
  by_cases h : rest.head? = some '='
  · obtain ⟨tail, rfl⟩ := List.head?_eq_some_iff.1 h
    unfold symbol
    cases withEquals c <;> rfl
  · rw [symbol_other c h, symbol_other]
    · rfl
    · cases rest with
      | nil => simp
      | cons d rest => simpa using h

/-- What starts a comment, a payload or a string. -/
def Opens (c : Char) (rest : List Char) : Prop :=
  c = '\x7b' ∨ c = '"' ∨ c = '\'' ∨ c = '(' ∧ rest.head? = some '*' ∨
    c = '/' ∧ rest.head? = some '*' ∨ c = '/' ∧ rest.head? = some '/'

/-- All else is a number, a word or a sign. -/
theorem scan_of_not_opens {payload : Bool} {c : Char} {rest : List Char} (h : ¬ Opens c rest) :
    scan payload c rest =
      if c.isDigit || (c == '.' && rest.head?.any Char.isDigit) then number (c :: rest)
      else if Word.isStart c then word (c :: rest)
      else symbol c rest := by
  unfold scan
  split
  · exact absurd (by simp [Opens]) h
  · exact absurd (by simp [Opens]) h
  · exact absurd (by simp [Opens]) h
  · exact absurd (by simp [Opens]) h
  · exact absurd (by simp [Opens]) h
  · exact absurd (by simp [Opens]) h
  · rfl

/-- **A number, a word or a sign ends at a line break**, whether it is broken or not. -/
theorem scan_append_of_not_opens {payload : Bool} {c : Char} {rest : List Char}
    (ho : ¬ Opens c rest) :
    scan payload c (rest ++ '\n' :: y) = (scan payload c rest).extend ('\n' :: y) := by
  have head (x : Char) (hx : x ≠ '\n') :
      (rest ++ '\n' :: y).head? = some x ↔ rest.head? = some x := by
    cases rest with
    | nil => simp [Ne.symm hx]
    | cons d rest => rfl
  have ho' : ¬ Opens c (rest ++ '\n' :: y) := by
    rwa [Opens, head '*' (by decide), head '/' (by decide)]
  have point : (rest ++ '\n' :: y).head?.any Char.isDigit = rest.head?.any Char.isDigit := by
    cases rest with
    | nil => rfl
    | cons d rest => rfl
  rw [scan_of_not_opens ho, scan_of_not_opens ho', point]
  split
  · exact number_append y c rest
  · split
    · exact word_append y (c :: rest)
    · exact symbol_append y c rest

/-- **A token that is not broken ends at a line break**, so what follows that is left alone. -/
theorem scan_append {payload : Bool} {c : Char} {rest : List Char}
    (h : (scan payload c rest).problem = none) :
    scan payload c (rest ++ '\n' :: y) = (scan payload c rest).extend ('\n' :: y) := by
  by_cases ho : Opens c rest
  · rcases ho with rfl | rfl | rfl | ⟨rfl, hr⟩ | ⟨rfl, hr⟩ | ⟨rfl, hr⟩
    · cases payload with
      | true => exact guidBody_append h _
      | false => exact braceComment_append h _
    · exact string_append h _
    · exact string_append h _
    · obtain ⟨tail, rfl⟩ := List.head?_eq_some_iff.1 hr
      exact delimitedComment_append h _
    · obtain ⟨tail, rfl⟩ := List.head?_eq_some_iff.1 hr
      exact delimitedComment_append h _
    · obtain ⟨tail, rfl⟩ := List.head?_eq_some_iff.1 hr
      exact lineComment_append y ('/' :: '/' :: tail)
  · exact scan_append_of_not_opens y ho

end LineBreak

/-- A broken token that tokenizing reports has a problem. -/
theorem problem_of_isReported {payload : Bool} {c : Char} {rest : List Char} {e : LexError}
    (hk : (scan payload c rest).kind = .error e) (he : e.isReported = true) :
    (scan payload c rest).problem ≠ none := by
  -- Of the small forms only an open string and a hex number without digits give such a token.
  have sign (c : Char) : single c ≠ .error e := by
    intro hk
    unfold single at hk
    split at hk
    case h_22 =>
      cases hk
      cases he
    all_goals cases hk
  have symbol (c : Char) (rest : List Char) : (symbol c rest).kind ≠ .error e := by
    unfold Lexeme.symbol
    split
    · rename_i kind hw
      rintro rfl
      unfold withEquals at hw
      split at hw <;> cases hw
    · exact sign c
  have string (quote : Quote) (body : List Char) (hk : (string quote body).kind = .error e) :
      (Lexeme.string quote body).problem ≠ none := by
    unfold Lexeme.string at hk ⊢
    split
    · split
      · simp_all
      · simp
    · simp
  have hex (x : Char) (rest : List Char) (hk : (hexNumber x rest).kind = .error e) :
      (hexNumber x rest).problem ≠ none := by
    simp only [hexNumber] at hk ⊢
    split at hk
    · simp_all
    · cases hk
  have plain (text : List Char) : (plainNumber text).kind ≠ .error e := by
    simp only [plainNumber]
    split <;> exact TokenKind.noConfusion
  have number (text : List Char) (hk : (number text).kind = .error e) :
      (Lexeme.number text).problem ≠ none := by
    unfold Lexeme.number at hk ⊢
    split at hk
    · exact hex _ _ hk
    · exact hex _ _ hk
    · exact absurd hk (plain _)
  -- The branches of the scanner in their order, each by the form it calls.
  unfold scan at hk ⊢
  split at hk
  · unfold delimitedComment at hk
    split at hk <;> cases hk
  · unfold delimitedComment at hk
    split at hk <;> cases hk
  · cases hk
  · split at hk
    · unfold guidBody at hk ⊢
      split at hk
      · cases hk
      · simp_all
    · unfold braceComment at hk
      split at hk <;> cases hk
  · exact string _ _ hk
  · exact string _ _ hk
  · split at hk
    · rename_i hd
      rw [if_pos hd]
      exact number _ hk
    · split at hk
      · cases hk
      · exact absurd hk (symbol _ _)

end Lexeme

namespace Lexer

open Text (isBlank)

variable {l : Lexer} {y : List Char}

/-! ### A line break behind -/

/-- The same place with another text behind it. -/
def withRest (l : Lexer) (rest : List Char) : Lexer := { l with rest := rest }

/-- The next token is scanned behind the white space. -/
theorem next_eq_scan {c : Char} {rest : List Char} (h : l.rest.dropWhile isBlank = c :: rest) :
    l.next =
      let lexeme := Lexeme.scan (l.guid == .colon) c rest
      let there := l.here.after lexeme.text
      { token := ⟨lexeme.kind, l.here.upTo there, l.blank.isEmpty && !l.afterComment⟩
        problem := lexeme.problem.map (Diagnostic.ofCause · (l.here.upTo there))
        next := ⟨lexeme.rest, there, lexeme.kind.isTrivia, l.guid.step lexeme.kind⟩ } := by
  unfold next
  simp only [h]
  rfl

/-- At the end of the text it is the final one. -/
theorem next_eq_eof (h : l.rest.dropWhile isBlank = []) :
    l.next =
      { token := ⟨.eof, l.here.upTo l.here, l.blank.isEmpty && !l.afterComment⟩, problem := none
        next := ⟨[], l.here, l.afterComment, l.guid⟩ } := by
  unfold next
  simp only [h]
  rfl

/-- There is a token left exactly if not all of the text is white space. -/
theorem dropWhile_ne_nil (h : l.next.token.kind ≠ .eof) :
    ∃ c rest, l.rest.dropWhile isBlank = c :: rest := by
  cases hd : l.rest.dropWhile isBlank with
  | nil =>
    rw [next_eq_eof hd] at h
    exact absurd rfl h
  | cons c rest => exact ⟨c, rest, rfl⟩

/-- **A token stands in the text behind the white space, with what was scanned for it.**  The
problem that it shows covers it. -/
theorem At.scans {text : List Char} (h : At text l) (he : l.next.token.kind ≠ .eof) :
    ∃ before c rest, text = before ++ c :: rest ∧ isBlank c = false ∧
      l.next.token.kind = (Lexeme.scan (l.guid == .colon) c rest).kind ∧
      l.next.token.span.start = Text.byteSize before ∧
      l.next.token.span.stop =
        Text.byteSize (before ++ (Lexeme.scan (l.guid == .colon) c rest).text) ∧
      l.next.problem = (Lexeme.scan (l.guid == .colon) c rest).problem.map
        (Diagnostic.ofCause · l.next.token.span) := by
  obtain ⟨before, rfl, hb⟩ := h
  obtain ⟨c, rest, hd⟩ := dropWhile_ne_nil he
  have hrest : l.rest = l.blank ++ (c :: rest) := by rw [← hd, blank_append_dropWhile]
  have hstart : l.here.offset = Text.byteSize (before ++ l.blank) := by
    rw [here, Position.offset_after, hb, Text.byteSize_append]
  refine ⟨before ++ l.blank, c, rest, by rw [hrest, List.append_assoc], ?_, ?_, ?_, ?_, ?_⟩
  · simpa [hd] using List.head?_dropWhile_not isBlank l.rest
  · rw [next_eq_scan hd]
  · rw [start_next, hstart]
  · rw [stop_next, next_eq_scan hd, Position.offset_after, hstart, ← Text.byteSize_append]
  · rw [next_eq_scan hd]

/-- The next token stands in the text where its span says. -/
theorem At.stands {text : List Char} (h : At text l) (he : l.next.token.kind ≠ .eof) :
    ∃ before c rest, text = before ++ c :: rest ∧ isBlank c = false ∧
      l.next.token.kind = (Lexeme.scan (l.guid == .colon) c rest).kind ∧
      l.next.token.span.start = Text.byteSize before ∧
      l.next.token.span.stop =
        Text.byteSize (before ++ (Lexeme.scan (l.guid == .colon) c rest).text) := by
  obtain ⟨before, c, rest, htext, hblank, hkind, hstart, hstop, -⟩ := h.scans he
  exact ⟨before, c, rest, htext, hblank, hkind, hstart, hstop⟩

/-- The progress towards `guid :` behind the next token. -/
theorem guid_next (he : l.next.token.kind ≠ .eof) :
    l.next.next.guid = l.guid.step l.next.token.kind := by
  obtain ⟨c, rest, hd⟩ := dropWhile_ne_nil he
  rw [next_eq_scan hd]

/-- A line break that follows somewhere is behind the first character of the next token. -/
theorem dropWhile_withRest {c : Char} {rest : List Char}
    (hd : l.rest.dropWhile isBlank = c :: rest) :
    (l.withRest (l.rest ++ '\n' :: y)).rest.dropWhile isBlank = c :: (rest ++ '\n' :: y) := by
  rw [withRest, List.dropWhile_append, hd]
  rfl

/-- A token that is scanned alike with a line break behind it is cut alike. -/
theorem next_extend {c : Char} {rest : List Char} (hd : l.rest.dropWhile isBlank = c :: rest)
    (hscan : Lexeme.scan (l.guid == .colon) c (rest ++ '\n' :: y) =
      (Lexeme.scan (l.guid == .colon) c rest).extend ('\n' :: y)) :
    (l.withRest (l.rest ++ '\n' :: y)).next =
      ⟨l.next.token, l.next.problem, l.next.next.withRest (l.next.next.rest ++ '\n' :: y)⟩ := by
  have hblank : (l.withRest (l.rest ++ '\n' :: y)).blank = l.blank := by
    have hlen := congrArg List.length l.blank_append_dropWhile
    rw [hd, List.length_append, List.length_cons] at hlen
    rw [blank, withRest, List.takeWhile_append, if_neg]
    · rfl
    · rw [← blank]
      omega
  rw [next_eq_scan hd, next_eq_scan (dropWhile_withRest hd)]
  simp only [here, hblank]
  rw [show (l.withRest (l.rest ++ '\n' :: y)).guid = l.guid from rfl, hscan]
  simp only [Lexeme.extend, withRest]

/-- A token that is not broken is cut alike if a line break follows somewhere behind it. -/
theorem next_append (h : l.next.token.kind ≠ .eof) (hp : l.next.problem = none) :
    (l.withRest (l.rest ++ '\n' :: y)).next =
      ⟨l.next.token, none, l.next.next.withRest (l.next.next.rest ++ '\n' :: y)⟩ := by
  obtain ⟨c, rest, hd⟩ := dropWhile_ne_nil h
  have hscan : (Lexeme.scan (l.guid == .colon) c rest).problem = none := by
    rw [next_eq_scan hd] at hp
    exact Option.map_eq_none_iff.1 hp
  rw [next_extend hd (Lexeme.scan_append y hscan), hp]

/-- The next token and the place behind it decide all that follow. -/
theorem steps_congr {m : Lexer} (h : l.next = m.next) : l.steps = m.steps := by
  rw [steps.eq_def l, steps.eq_def m, h]

/-- The final token is the last one. -/
theorem finish_of_eof (h : l.next.token.kind = .eof) : l.finish = l.next.next := by
  rw [finish, steps, dif_pos h]
  rfl

/-- Behind another one the end is that of the rest. -/
theorem finish_of_ne_eof (h : l.next.token.kind ≠ .eof) : l.finish = l.next.next.finish := by
  obtain ⟨more, hm⟩ := List.head?_eq_some_iff.1 l.next.next.head?_steps
  rw [finish, finish, steps, dif_neg h, hm, List.getLast?_cons_cons]
  rfl

/-- White space in front of a line break is passed over with it. -/
theorem next_withRest_blank {b : List Char} (hb : ∀ c ∈ b, isBlank c = true) :
    (l.withRest (b ++ '\n' :: y)).next =
      (Lexer.mk ('\n' :: y) (l.position.after b) l.afterComment l.guid).next := by
  have hn : isBlank '\n' = true := by decide
  have hdrop : (b ++ '\n' :: y).dropWhile isBlank = y.dropWhile isBlank := by
    rw [List.dropWhile_append_of_pos hb, List.dropWhile_cons_of_pos hn]
  have htake : (b ++ '\n' :: y).takeWhile isBlank = b ++ '\n' :: y.takeWhile isBlank := by
    rw [List.takeWhile_append_of_pos hb, List.takeWhile_cons_of_pos hn]
  have hempty : (b ++ '\n' :: y.takeWhile isBlank).isEmpty = false := by simp
  unfold next withRest
  simp only [hdrop, htake, List.dropWhile_cons_of_pos hn, List.takeWhile_cons_of_pos hn,
    Position.after_append, hempty, List.isEmpty_cons]

/-- The tokens that are no comments. -/
def kept (l : Lexer) : List Token :=
  (l.steps.map LexStep.token).filter fun t => !t.kind.isTrivia

/-- A comment is left out. -/
theorem kept_of_isTrivia (h : l.next.token.kind.isTrivia = true) : l.kept = l.next.next.kept := by
  have he : l.next.token.kind ≠ .eof := by
    intro he
    rw [he] at h
    cases h
  rw [kept, steps, dif_neg he, List.map_cons, List.filter_cons_of_neg (by simp [h]), kept]

/-- Another token is kept. -/
theorem kept_of_not_isTrivia (h : l.next.token.kind.isTrivia = false)
    (he : l.next.token.kind ≠ .eof) : l.kept = l.next.token :: l.next.next.kept := by
  rw [kept, steps, dif_neg he, List.map_cons, List.filter_cons_of_pos (by simp [h]), kept]

/-- The final one is kept. -/
theorem kept_of_eof (he : l.next.token.kind = .eof) : l.kept = [l.next.token] := by
  rw [kept, steps, dif_pos he]
  simp [he, TokenKind.isTrivia]

/-- So there is always one. -/
theorem kept_ne_nil (l : Lexer) : l.kept ≠ [] := by
  fun_induction steps l with
  | case1 l he =>
    rw [kept_of_eof he]
    exact List.cons_ne_nil _ _
  | case2 l he ih =>
    cases ht : l.next.token.kind.isTrivia with
    | true => rwa [kept_of_isTrivia ht]
    | false =>
      rw [kept_of_not_isTrivia ht he]
      exact List.cons_ne_nil _ _

/-- **A text without broken tokens is cut in the same way if a line break and more text follow.**
What follows is cut from where the text ends. -/
theorem kept_append (l : Lexer) (h : ∀ s ∈ l.steps, s.problem = none) (y : List Char) :
    (l.withRest (l.rest ++ '\n' :: y)).kept =
        l.kept.dropLast ++ (l.finish.withRest ('\n' :: y)).kept ∧
      (l.withRest (l.rest ++ '\n' :: y)).steps.filterMap LexStep.problem =
        (l.finish.withRest ('\n' :: y)).steps.filterMap LexStep.problem := by
  fun_induction steps l with
  | case1 l he =>
    obtain ⟨hd, -, -⟩ := next_of_eof he
    have hblank : l.blank = l.rest := by
      have := l.blank_append_dropWhile
      rwa [hd, List.append_nil] at this
    have hb : ∀ c ∈ l.rest, isBlank c = true := by
      intro c hc
      rw [← hblank] at hc
      exact isBlank_of_mem_blank hc
    have hfinish : (l.withRest (l.rest ++ '\n' :: y)).steps =
        (l.finish.withRest ('\n' :: y)).steps := by
      refine steps_congr ?_
      rw [next_withRest_blank hb, finish_of_eof he, next_eq_eof hd, withRest, here, hblank]
    rw [kept_of_eof he, kept, kept, hfinish]
    exact ⟨rfl, rfl⟩
  | case2 l he ih =>
    have hp := h l.next (List.mem_cons_self ..)
    obtain ⟨ih1, ih2⟩ := ih fun s hs => h s (List.mem_cons_of_mem _ hs)
    have hnext := next_append (y := y) he hp
    have he' : (l.withRest (l.rest ++ '\n' :: y)).next.token.kind ≠ .eof := by rwa [hnext]
    rw [finish_of_ne_eof he]
    constructor
    · cases ht : l.next.token.kind.isTrivia with
      | true =>
        rw [kept_of_isTrivia ht, kept_of_isTrivia (by rwa [hnext]), hnext]
        exact ih1
      | false =>
        rw [kept_of_not_isTrivia ht he, kept_of_not_isTrivia (by rwa [hnext]) he', hnext,
          List.dropLast_cons_of_ne_nil l.next.next.kept_ne_nil, List.cons_append]
        exact congrArg _ ih1
    · rw [steps, dif_neg he', hnext, List.filterMap_cons]
      exact ih2

/-- The end of a text lies behind all of it. -/
theorem position_finish (l : Lexer) : l.finish.position = l.position.after l.rest := by
  fun_induction steps l with
  | case1 l he =>
    obtain ⟨hd, -, hp⟩ := next_of_eof he
    rw [finish_of_eof he, hp, here]
    conv => rhs; rw [← l.blank_append_dropWhile, hd, List.append_nil]
  | case2 l he ih =>
    obtain ⟨word, -, hr, hp, -⟩ := next_of_ne_eof he
    rw [finish_of_ne_eof he, ih, hp, here]
    conv => rhs; rw [hr]
    rw [Position.after_append, Position.after_append]

/-- The progress behind a text is that behind its last token. -/
theorem guid_finish (l : Lexer) (h : l.finish.guid = .colon) :
    (∃ t, l.kept.dropLast.getLast? = some t ∧ t.kind = .colon) ∨
      l.guid = .colon ∧ l.kept.dropLast = [] := by
  fun_induction steps l with
  | case1 l he =>
    obtain ⟨hd, -, -⟩ := next_of_eof he
    rw [finish_of_eof he, next_eq_eof hd] at h
    rw [kept_of_eof he]
    exact .inr ⟨h, rfl⟩
  | case2 l he ih =>
    rw [finish_of_ne_eof he] at h
    have hguid := guid_next he
    cases ht : l.next.token.kind.isTrivia with
    | true =>
      rw [GuidProgress.step, if_pos ht] at hguid
      rw [kept_of_isTrivia ht, ← hguid]
      exact ih h
    | false =>
      rw [kept_of_not_isTrivia ht he, List.dropLast_cons_of_ne_nil l.next.next.kept_ne_nil]
      left
      rcases ih h with ⟨t, hlast, hk⟩ | ⟨hcolon, hnil⟩
      · obtain ⟨u, us, hu⟩ := List.exists_cons_of_ne_nil
          (l := l.next.next.kept.dropLast) (by rintro hnil; rw [hnil] at hlast; cases hlast)
        exact ⟨t, by rwa [hu, List.getLast?_cons_cons, ← hu], hk⟩
      · rw [hnil]
        refine ⟨l.next.token, rfl, ?_⟩
        rw [hguid, GuidProgress.step, if_neg (by simp [ht])] at hcolon
        split at hcolon
        · cases hcolon
        · split at hcolon
          · rename_i hk
            exact hk.1
          · cases hcolon

/-- A broken token that tokenizing reports has a problem. -/
theorem problem_of_isReported {x : LexStep} (hx : x ∈ l.steps) {e : LexError}
    (hk : x.token.kind = .error e) (he : e.isReported = true) : x.problem ≠ none := by
  revert hx
  fun_induction steps l with
  | case1 l hend =>
    intro hx
    rw [List.mem_singleton.1 hx, hend] at hk
    cases hk
  | case2 l hend ih =>
    intro hx
    rcases List.mem_cons.1 hx with rfl | hx
    · obtain ⟨c, rest, hd⟩ := dropWhile_ne_nil hend
      rw [next_eq_scan hd] at hk ⊢
      simpa using Lexeme.problem_of_isReported hk he
    · exact ih hx

/-! ### Moving a text -/

end Lexer

/-- A place in a text that something was put in front of. -/
def Position.shift (bytes lines : Nat) (p : Position) : Position :=
  ⟨p.offset + bytes, p.line + lines, p.column⟩

/-- A span in a text that something was put in front of. -/
def Span.shift (bytes lines : Nat) (s : Span) : Span :=
  ⟨s.start + bytes, s.stop + bytes, s.line + lines, s.column⟩

/-- A token in a text that something was put in front of. -/
def Token.shift (bytes lines : Nat) (t : Token) : Token :=
  ⟨t.kind, t.span.shift bytes lines, t.joined⟩

/-- A diagnostic in a text that something was put in front of. -/
def Diagnostic.shift (bytes lines : Nat) (d : Diagnostic) : Diagnostic :=
  { d with span := d.span.shift bytes lines }

section Shift

variable (bytes lines : Nat)

/-- A place behind a text, moved by bytes and lines. -/
theorem Position.after_shift (p : Position) (text : List Char) :
    (p.shift bytes lines).after text = (p.after text).shift bytes lines := by
  induction text generalizing p with
  | nil => rfl
  | cons c text ih =>
    have : (p.shift bytes lines).advance c = (p.advance c).shift bytes lines := by
      unfold Position.advance Position.shift
      split <;> simp only [Position.mk.injEq, and_true] <;> omega
    rw [Position.after_cons, Position.after_cons, this, ih]

namespace Lexer

/-- The same place in a text that something was put in front of. -/
def shift (l : Lexer) : Lexer := { l with position := l.position.shift bytes lines }

end Lexer

/-- A step in a text that something was put in front of. -/
def LexStep.shift (s : LexStep) : LexStep :=
  ⟨s.token.shift bytes lines, s.problem.map (Diagnostic.shift bytes lines),
    s.next.shift bytes lines⟩

namespace Lexer

variable (l : Lexer)

/-- The next token from a place that is moved. -/
theorem next_shift : (l.shift bytes lines).next = l.next.shift bytes lines := by
  unfold next
  simp only [shift, Position.after_shift]
  split
  · rfl
  · simp only [LexStep.shift, Option.map_map]
    rfl

/-- **What is cut off does not depend on what stands in front.** -/
theorem steps_shift : (l.shift bytes lines).steps = l.steps.map (LexStep.shift bytes lines) := by
  fun_induction steps l with
  | case1 l he =>
    have : (l.next.shift bytes lines).token.kind = .eof := he
    rw [steps, next_shift, dif_pos this]
    rfl
  | case2 l he ih =>
    have : (l.next.shift bytes lines).token.kind ≠ .eof := he
    rw [steps, next_shift, dif_neg this, List.map_cons, ← ih]
    rfl

end Lexer

end Shift

/-! ### The first tokens of a text -/

namespace Lexer

open Text (isBlank)

variable {l : Lexer} {y : List Char}

/-- So are all tokens moved. -/
theorem kept_shift (bytes lines : Nat) (l : Lexer) :
    (l.shift bytes lines).kept = l.kept.map (Token.shift bytes lines) := by
  have htokens : (l.steps.map (LexStep.shift bytes lines)).map LexStep.token =
      (l.steps.map LexStep.token).map (Token.shift bytes lines) := by
    rw [List.map_map, List.map_map]
    rfl
  rw [kept, steps_shift, htokens, List.filter_map, kept]
  rfl

/-- Behind a comment nothing is joined. -/
theorem joined_head_kept (l : Lexer) (h : l.afterComment = true) :
    ∀ t ∈ l.kept.head?, t.joined = false := by
  fun_induction steps l with
  | case1 l he =>
    rw [kept_of_eof he]
    rintro t ⟨⟩
    rw [joined_next, h, Bool.not_true, Bool.and_false]
  | case2 l he ih =>
    cases ht : l.next.token.kind.isTrivia with
    | true =>
      obtain ⟨-, -, -, -, hc⟩ := next_of_ne_eof he
      rw [kept_of_isTrivia ht]
      exact ih (hc.trans ht)
    | false =>
      rw [kept_of_not_isTrivia ht he]
      rintro t ⟨⟩
      rw [joined_next, h, Bool.not_true, Bool.and_false]

/-- Outside of `guid :` the progress towards it matters only for the progress behind a token. -/
theorem next_withGuid {progress : GuidProgress} (hl : l.guid ≠ .colon) (hp : progress ≠ .colon)
    (he : l.next.token.kind ≠ .eof) :
    ({ l with guid := progress } : Lexer).next =
      { l.next with next := { l.next.next with guid := progress.step l.next.token.kind } } := by
  obtain ⟨c, rest, hd⟩ := dropWhile_ne_nil he
  have h1 : (l.guid == .colon) = false := by simpa using hl
  have h2 : (progress == .colon) = false := by simpa using hp
  rw [next_eq_scan hd, next_eq_scan (l := { l with guid := progress }) hd, h1, h2]
  rfl

/-- **What stands before a name has no influence on the tokens from there on.** -/
theorem steps_withGuid (l : Lexer) {progress : GuidProgress} (hl : l.guid ≠ .colon)
    (hp : progress ≠ .colon) (first : ∃ t text, l.kept.head? = some t ∧ t.kind = .word text .name) :
    ({ l with guid := progress } : Lexer).steps.map LexStep.token = l.steps.map LexStep.token ∧
      ({ l with guid := progress } : Lexer).steps.filterMap LexStep.problem =
        l.steps.filterMap LexStep.problem := by
  fun_induction steps l with
  | case1 l he =>
    rw [kept_of_eof he] at first
    obtain ⟨t, text, ⟨⟩, hk⟩ := first
    rw [he] at hk
    cases hk
  | case2 l he ih =>
    have hnext := next_withGuid hl hp he
    have hsteps : ({ l with guid := progress } : Lexer).steps =
        { l.next with next := { l.next.next with guid := progress.step l.next.token.kind } } ::
          ({ l.next.next with guid := progress.step l.next.token.kind } : Lexer).steps := by
      rw [steps, hnext, dif_neg he]
    have hguid := guid_next he
    rw [hsteps]
    cases ht : l.next.token.kind.isTrivia with
    | true =>
      have hstep (q : GuidProgress) : q.step l.next.token.kind = q := by
        rw [GuidProgress.step, if_pos ht]
      rw [hstep] at hguid ⊢
      rw [kept_of_isTrivia ht] at first
      obtain ⟨ih1, ih2⟩ := ih (hguid ▸ hl) first
      rw [List.map_cons, List.map_cons, ih1, List.filterMap_cons, List.filterMap_cons, ih2]
      exact ⟨rfl, rfl⟩
    | false =>
      rw [kept_of_not_isTrivia ht he] at first
      obtain ⟨t, text, ⟨⟩, hk⟩ := first
      have hname : (TokenKind.word text .name).keyword? = none := rfl
      have hstep (q : GuidProgress) : q.step l.next.token.kind = .none := by
        rw [GuidProgress.step, if_neg (by simp [ht]), hk, if_neg (by simp [hname]),
          if_neg (by simp)]
      have hsame : ({ l.next.next with guid := progress.step l.next.token.kind } : Lexer) =
          l.next.next := by
        rw [hstep, ← hstep l.guid, ← hguid]
      rw [hsame]
      exact ⟨rfl, rfl⟩

/-- A line break in front of a text separates its first token from what stands before. -/
theorem next_lineBreak {position : Position} {afterComment : Bool} {progress : GuidProgress}
    {l : Lexer} (hl : l = ⟨y, position.advance '\n', false, progress⟩)
    (he : l.next.token.kind ≠ .eof) :
    (Lexer.mk ('\n' :: y) position afterComment progress).next =
      ⟨⟨l.next.token.kind, l.next.token.span, false⟩, l.next.problem, l.next.next⟩ := by
  subst hl
  obtain ⟨c, rest, hd⟩ := dropWhile_ne_nil he
  have hn : isBlank '\n' = true := by decide
  have hd' : (Lexer.mk ('\n' :: y) position afterComment progress).rest.dropWhile isBlank =
      c :: rest := by
    rw [List.dropWhile_cons_of_pos hn]
    exact hd
  rw [next_eq_scan hd, next_eq_scan hd']
  simp only [here, blank, List.takeWhile_cons_of_pos hn, Position.after_cons, List.isEmpty_cons,
    Bool.false_and]

end Lexer

end Ndf
