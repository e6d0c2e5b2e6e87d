/-
# Texts put together from tokens

A `Piece` is a token as it is written: the white space in front of it, its text and its kind.  A
text that is put together from pieces is cut into these again, if each of them fits in front of what
follows it (`Piece.AllFit`); which text a token fits in front of is told by its form (`fits_word`,
`fits_lone` and so on).

The tokens of such a text are known with their spans (`Piece.tokensFrom`), so the text between two
of them is too (`Piece.slice?_across`).
-/

import Ndf.Proofs.Concat.Tokens
import Ndf.Proofs.Token.Written

namespace Ndf

open Text (isBlank byteSize)

/-! ### Classes of characters -/

/-- White space is below or above the printable characters of ASCII. -/
theorem Text.toNat_of_isBlank {c : Char} (h : isBlank c = true) : c.toNat ≤ 32 ∨ 133 ≤ c.toNat := by
  simp [isBlank, blankRanges] at h
  omega

/-- Digits by their codes. -/
theorem Lexeme.isDigit_iff {c : Char} : c.isDigit = true ↔ 48 ≤ c.toNat ∧ c.toNat ≤ 57 := by
  show (decide (48 ≤ c.val) && decide (c.val ≤ 57)) = true ↔ _
  rw [Bool.and_eq_true, decide_eq_true_eq, decide_eq_true_eq]
  rfl

/-- Letters by their codes. -/
theorem Word.isAlpha_iff {c : Char} : c.isAlpha = true ↔
    (65 ≤ c.toNat ∧ c.toNat ≤ 90) ∨ (97 ≤ c.toNat ∧ c.toNat ≤ 122) := by
  show (decide (65 ≤ c.val ∧ c.val ≤ 90) || (decide (97 ≤ c.val) && decide (c.val ≤ 122))) =
    true ↔ _
  rw [Bool.or_eq_true, Bool.and_eq_true, decide_eq_true_eq, decide_eq_true_eq, decide_eq_true_eq]
  rfl

/-- A part of a word is between `0` and `z`. -/
theorem Word.toNat_of_isPart {c : Char} (h : isPart c = true) : 48 ≤ c.toNat ∧ c.toNat ≤ 122 := by
  have hu : '_'.toNat = 95 := rfl
  rw [isPart, Char.isAlphanum, Bool.or_eq_true, Bool.or_eq_true, isAlpha_iff, Lexeme.isDigit_iff,
    beq_iff_eq] at h
  rcases h with ((h | h) | h) | rfl <;> omega

/-- White space is no part of a word. -/
theorem Word.isPart_of_isBlank {c : Char} (h : isBlank c = true) : isPart c = false := by
  rw [← Bool.not_eq_true]
  intro hp
  have := Text.toNat_of_isBlank h
  have := toNat_of_isPart hp
  omega

/-- So it is no white space. -/
theorem Word.isBlank_of_isPart {c : Char} (h : isPart c = true) : isBlank c = false := by
  rw [← Bool.not_eq_true]
  intro hb
  rw [isPart_of_isBlank hb] at h
  cases h

/-- Digits of any number are parts of words. -/
theorem Lexeme.isPart_of_isHexDigit {c : Char} (h : isHexDigit c = true) :
    Word.isPart c = true := by
  simp only [isHexDigit, Bool.or_eq_true, Bool.and_eq_true, decide_eq_true_eq, Char.le_def,
    UInt32.le_iff_toNat_le] at h
  rw [Word.isPart, Char.isAlphanum, Bool.or_eq_true, Bool.or_eq_true, Word.isAlpha_iff]
  rcases h with (h | ⟨h1, h2⟩) | ⟨h1, h2⟩
  · exact .inl (.inr h)
  · exact .inl (.inl (.inr ⟨h1, h2.trans (by decide)⟩))
  · exact .inl (.inl (.inl ⟨h1, h2.trans (by decide)⟩))

/-- A digit is a part of a word. -/
theorem Lexeme.isPart_of_isDigit {c : Char} (h : c.isDigit = true) : Word.isPart c = true := by
  simp [Word.isPart, Char.isAlphanum, h]

/-- No digit starts a word. -/
theorem Word.isDigit_of_isStart {c : Char} (h : isStart c = true) : c.isDigit = false := by
  rw [← Bool.not_eq_true, Lexeme.isDigit_iff]
  rw [isStart, Bool.or_eq_true, isAlpha_iff, beq_iff_eq] at h
  have hu : '_'.toNat = 95 := rfl
  rcases h with (h | h) | rfl <;> omega

namespace Lexeme

/-! ### Tokens in front of a text -/

/-- A run of characters is taken as a whole if the next one stops it. -/
theorem takeWhile_all {p : Char → Bool} {a rest : List Char} (ha : ∀ c ∈ a, p c = true)
    (hr : ∀ d, rest.head? = some d → p d = false) : (a ++ rest).takeWhile p = a := by
  rw [List.takeWhile_append_of_pos ha]
  cases rest with
  | nil => rw [List.takeWhile_nil, List.append_nil]
  | cons d rest => rw [List.takeWhile_cons_of_neg (by simp [hr d rfl]), List.append_nil]

/-- What follows is left. -/
theorem dropWhile_all {p : Char → Bool} {a rest : List Char} (ha : ∀ c ∈ a, p c = true)
    (hr : ∀ d, rest.head? = some d → p d = false) : (a ++ rest).dropWhile p = rest := by
  rw [List.dropWhile_append_of_pos ha]
  cases rest with
  | nil => rfl
  | cons d rest => rw [List.dropWhile_cons_of_neg (by simp [hr d rfl])]

variable {payload : Bool} {c : Char} {inside text rest : List Char}

/-- A word goes up to the first character that is no part of one. -/
theorem scan_word (hw : Word.IsWord (c :: inside))
    (hr : ∀ d, rest.head? = some d → Word.isPart d = false) :
    scan payload c (inside ++ rest) =
      ⟨.word (String.ofList (c :: inside)) (Word.classify (String.ofList (c :: inside))),
        c :: inside, rest, none⟩ := by
  obtain ⟨hc, hi⟩ := hw
  have hopens : ¬ Opens c (inside ++ rest) := by
    rintro (rfl | rfl | rfl | ⟨rfl, -⟩ | ⟨rfl, -⟩ | ⟨rfl, -⟩) <;> cases hc
  have hpoint : (c == '.') = false := by
    rw [beq_eq_false_iff_ne]
    rintro rfl
    cases hc
  have hall : ∀ d ∈ c :: inside, Word.isPart d = true :=
    List.forall_mem_cons.2 ⟨Word.isPart_of_isStart hc, hi⟩
  rw [scan_of_not_opens hopens, Word.isDigit_of_isStart hc, hpoint, if_neg (by simp), if_pos hc,
    word, ← List.cons_append, takeWhile_all hall hr, dropWhile_all hall hr]

/-- What ends every word and every number: neither a part of one nor a point. -/
def EndsNumber (rest : List Char) : Prop :=
  ∀ d, rest.head? = some d → Word.isPart d = false ∧ d ≠ '.'

/-- Without `0x` in front a number is a plain one. -/
theorem number_plain (h : ∀ x more, x = 'x' ∨ x = 'X' → text ≠ '0' :: x :: more) :
    number text = plainNumber text := by
  unfold number
  split
  · exact absurd rfl (h _ _ (.inl rfl))
  · exact absurd rfl (h _ _ (.inr rfl))
  · rfl

/-- A number goes up to the first character that is neither a part of a word nor a point. -/
theorem number_writes {kind : NumberKind} (hw : kind.Writes text) (hr : EndsNumber rest) :
    number (text ++ rest) = ⟨.number kind (String.ofList text), text, rest, none⟩ := by
  have hpart (p : Char → Bool) (hp : ∀ d, p d = true → Word.isPart d = true) :
      ∀ d, rest.head? = some d → p d = false := by
    intro d hd
    rw [← Bool.not_eq_true]
    exact fun hpd => absurd (hp d hpd) (by simp [(hr d hd).1])
  have hdigit := hpart Char.isDigit fun _ => isPart_of_isDigit
  -- The three kinds part at the second character: only `0x` leads away from the plain reading.
  cases kind with
  | hex =>
    obtain ⟨x, digits, rfl, hx, hne, hdigits⟩ := hw
    have hhex := hpart isHexDigit fun _ => isPart_of_isHexDigit
    have hrun : hexNumber x (digits ++ rest) =
        ⟨.number .hex (String.ofList ('0' :: x :: digits)), '0' :: x :: digits, rest, none⟩ := by
      simp only [hexNumber, takeWhile_all hdigits hhex, dropWhile_all hdigits hhex]
      rw [if_neg (by simpa using hne)]
    rcases hx with rfl | rfl
    · exact hrun
    · exact hrun
  | decimal =>
    obtain ⟨hne, hdigits⟩ := hw
    have hplain : number (text ++ rest) = plainNumber (text ++ rest) := by
      refine number_plain fun x more hx he => ?_
      obtain ⟨d, text, rfl⟩ := List.exists_cons_of_ne_nil hne
      obtain ⟨-, he⟩ := List.cons.inj he
      cases text with
      | nil =>
        have := (hr x (congrArg List.head? he)).1
        rcases hx with rfl | rfl <;> cases this
      | cons e text =>
        obtain ⟨rfl, -⟩ := List.cons.inj he
        have := hdigits e (by simp)
        rcases hx with rfl | rfl <;> cases this
    rw [hplain]
    unfold plainNumber
    rw [takeWhile_all hdigits hdigit, dropWhile_all hdigits hdigit]
    dsimp only
    split
    · rename_i more
      exact absurd rfl (hr '.' rfl).2
    · rfl
  | float =>
    obtain ⟨whole, part, rfl, hne, hwhole, hpart'⟩ := hw
    have hplain : number (whole ++ '.' :: part ++ rest) =
        plainNumber (whole ++ '.' :: (part ++ rest)) := by
      rw [List.append_assoc, List.cons_append]
      refine number_plain fun x more hx he => ?_
      cases whole with
      | nil => cases he
      | cons d whole =>
        obtain ⟨-, he⟩ := List.cons.inj he
        cases whole with
        | nil =>
          obtain ⟨rfl, -⟩ := List.cons.inj he
          rcases hx with hx | hx <;> cases hx
        | cons e whole =>
          obtain ⟨rfl, -⟩ := List.cons.inj he
          have := hwhole e (by simp)
          rcases hx with rfl | rfl <;> cases this
    have hpoint : ∀ d, ('.' :: (part ++ rest)).head? = some d → d.isDigit = false := by
      rintro d ⟨⟩
      rfl
    rw [hplain]
    unfold plainNumber
    rw [takeWhile_all hwhole hpoint, dropWhile_all hwhole hpoint]
    simp only [takeWhile_all hpart' hdigit, dropWhile_all hpart' hdigit]

/-- A number starts with a digit, or with a point in front of one. -/
theorem front_of_writes {kind : NumberKind} (hw : kind.Writes (c :: inside)) :
    (c.isDigit || (c == '.' && inside.head?.any Char.isDigit)) = true := by
  cases kind with
  | decimal => simp [hw.2 c (by simp)]
  | hex =>
    obtain ⟨x, digits, he, -⟩ := hw
    rw [(List.cons.inj he).1]
    rfl
  | float =>
    obtain ⟨whole, part, he, hne, hwhole, hpart⟩ := hw
    cases whole with
    | cons d whole =>
      rw [(List.cons.inj he).1]
      simp [hwhole d (by simp)]
    | nil =>
      obtain ⟨rfl, rfl⟩ := List.cons.inj he
      obtain ⟨d, part, rfl⟩ := List.exists_cons_of_ne_nil (hne.resolve_left (by simp))
      simp [hpart d (by simp)]

/-- A number is scanned in front of what does not go on with it. -/
theorem scan_number {kind : NumberKind} (hw : kind.Writes (c :: inside)) (hr : EndsNumber rest) :
    scan payload c (inside ++ rest) =
      ⟨.number kind (String.ofList (c :: inside)), c :: inside, rest, none⟩ := by
  have hfront := front_of_writes hw
  have hopens : ¬ Opens c (inside ++ rest) := by
    rintro (rfl | rfl | rfl | ⟨rfl, -⟩ | ⟨rfl, -⟩ | ⟨rfl, -⟩) <;> cases hfront
  have hhead : (c.isDigit || (c == '.' && (inside ++ rest).head?.any Char.isDigit)) = true := by
    cases inside with
    | cons d inside => exact hfront
    | nil =>
      rw [Bool.or_eq_true] at hfront ⊢
      exact hfront.imp id fun h => by simp at h
  rw [scan_of_not_opens hopens, if_pos hhead, ← List.cons_append, number_writes hw hr]

/-- A string is scanned whatever follows. -/
theorem scan_string {quote : Quote} {raw : List Char} (hq : quote.Encloses raw) :
    scan payload quote.char (raw ++ quote.char :: rest) =
      ⟨.string quote (String.ofList raw), quote.char :: raw ++ [quote.char], rest, none⟩ := by
  have hscan : scan payload quote.char (raw ++ quote.char :: rest) =
      string quote (raw ++ quote.char :: rest) := by
    cases quote <;> rfl
  rw [hscan, string, hq rest]
  exact if_pos rfl

/-- A sign that starts nothing longer in front of `rest`. -/
structure Lone (c : Char) (rest : List Char) : Prop where
  opens : ¬ Opens c rest
  digit : (c.isDigit || (c == '.' && rest.head?.any Char.isDigit)) = false
  word : Word.isStart c = false
  equals : withEquals c ≠ none → rest.head? ≠ some '='

/-- A sign is scanned in front of what makes no longer one. -/
theorem scan_lone (h : Lone c rest) : scan payload c rest = ⟨single c, [c], rest, none⟩ := by
  rw [scan_of_not_opens h.opens, h.digit, if_neg (by simp), h.word, if_neg (by simp)]
  by_cases he : withEquals c = none
  · unfold symbol
    split
    · rename_i hk
      rw [he] at hk
      cases hk
    · rfl
  · exact symbol_other c (h.equals he)

/-- A sign of two characters. -/
theorem scan_double {kind : TokenKind} (h : withEquals c = some kind) :
    scan payload c ('=' :: rest) = ⟨kind, [c, '='], rest, none⟩ := by
  unfold withEquals at h
  split at h <;> cases h <;> rfl

end Lexeme

/-! ### Pieces -/

/-- A token as it is written: the white space in front of it, its text and its kind. -/
structure Piece where
  blank : List Char
  text : List Char
  kind : TokenKind

namespace Piece

variable {p : Piece} {ps qs : List Piece} {rest blank text : List Char} {here : Position}

/-- A piece as text. -/
def written (p : Piece) : List Char := p.blank ++ p.text

/-- Pieces behind each other as text. -/
def join (ps : List Piece) : List Char := ps.flatMap written

@[simp] theorem join_nil : join [] = [] := rfl

@[simp] theorem join_cons : join (p :: ps) = p.written ++ join ps := List.flatMap_cons

@[simp] theorem join_append : join (ps ++ qs) = join ps ++ join qs := List.flatMap_append

/-- The token that a piece is cut off as. -/
def token (here : Position) (p : Piece) : Token :=
  ⟨p.kind, (here.after p.blank).upTo (here.after p.written), p.blank.isEmpty⟩

/-- The tokens that pieces are cut off as. -/
def tokensFrom (here : Position) : List Piece → List Token
  | [] => []
  | p :: ps => p.token here :: tokensFrom (here.after p.written) ps

@[simp] theorem tokensFrom_append : tokensFrom here (ps ++ qs) =
    tokensFrom here ps ++ tokensFrom (here.after (join ps)) qs := by
  induction ps generalizing here with
  | nil => rfl
  | cons p ps ih =>
    rw [List.cons_append, tokensFrom, ih, tokensFrom, List.cons_append, join_cons,
      Position.after_append]

@[simp] theorem kind_tokensFrom : (tokensFrom here ps).map Token.kind = ps.map Piece.kind := by
  induction ps generalizing here with
  | nil => rfl
  | cons p ps ih => exact congrArg _ ih

@[simp] theorem length_tokensFrom : (tokensFrom here ps).length = ps.length := by
  rw [← List.length_map (f := Token.kind), kind_tokensFrom, List.length_map]

/-- In front of `rest` a piece is cut off as it is. -/
structure Fits (p : Piece) (rest : List Char) : Prop where
  blank : ∀ c ∈ p.blank, isBlank c = true
  visible : p.kind.isTrivia = false
  scan : ∃ c inside, p.text = c :: inside ∧ isBlank c = false ∧
    ∀ payload, Lexeme.scan payload c (inside ++ rest) = ⟨p.kind, p.text, rest, none⟩

/-- Each of the pieces is cut off as it is in front of what follows, `rest` coming last. -/
def AllFit : List Piece → List Char → Prop
  | [], _ => True
  | p :: ps, rest => p.Fits (join ps ++ rest) ∧ AllFit ps rest

/-- Pieces fit in front of others that fit. -/
theorem allFit_append : AllFit (ps ++ qs) rest ↔ AllFit ps (join qs ++ rest) ∧ AllFit qs rest := by
  induction ps with
  | nil => simp [AllFit]
  | cons p ps ih =>
    rw [List.cons_append, AllFit, AllFit, ih, join_append, List.append_assoc, and_assoc]

/-- As `Fits`, where it is known whether `guid :` stands before. -/
structure FitsAt (payload : Bool) (p : Piece) (rest : List Char) : Prop where
  blank : ∀ c ∈ p.blank, isBlank c = true
  visible : p.kind.isTrivia = false
  scan : ∃ c inside, p.text = c :: inside ∧ isBlank c = false ∧
    Lexeme.scan payload c (inside ++ rest) = ⟨p.kind, p.text, rest, none⟩

/-- What fits anywhere fits behind a colon or not. -/
theorem Fits.at (h : p.Fits rest) (payload : Bool) : p.FitsAt payload rest := by
  obtain ⟨c, inside, ht, hc, hscan⟩ := h.scan
  exact ⟨h.blank, h.visible, c, inside, ht, hc, hscan payload⟩

/-- Each of the pieces is cut off as it is, if so much of `guid :` stands before the first. -/
def CutFrom (guid : GuidProgress) : List Piece → List Char → Prop
  | [], _ => True
  | p :: ps, rest =>
    p.FitsAt (guid == .colon) (join ps ++ rest) ∧ CutFrom (guid.step p.kind) ps rest

/-- Pieces that fit are cut off wherever they stand. -/
theorem AllFit.cutFrom (h : AllFit ps rest) (guid : GuidProgress) : CutFrom guid ps rest := by
  induction ps generalizing guid with
  | nil => trivial
  | cons p ps ih => exact ⟨h.1.at _, ih h.2 _⟩

/-! ### What fits -/

/-- A word fits in front of what is no part of it. -/
theorem fits_word (hb : ∀ c ∈ blank, isBlank c = true) (hw : Word.IsWord text)
    (hr : ∀ d, rest.head? = some d → Word.isPart d = false) :
    Fits ⟨blank, text, .word (String.ofList text) (Word.classify (String.ofList text))⟩ rest := by
  cases text with
  | nil => exact hw.elim
  | cons c inside =>
    exact ⟨hb, rfl, c, inside, rfl, Word.isBlank_of_isPart (Word.isPart_of_isStart hw.1),
      fun _ => Lexeme.scan_word hw hr⟩

/-- A number fits in front of what does not go on with it. -/
theorem fits_number {kind : NumberKind} (hb : ∀ c ∈ blank, isBlank c = true)
    (hw : kind.Writes text) (hr : Lexeme.EndsNumber rest) :
    Fits ⟨blank, text, .number kind (String.ofList text)⟩ rest := by
  cases text with
  | nil =>
    cases kind with
    | decimal => exact absurd rfl hw.1
    | hex =>
      obtain ⟨x, digits, he, -⟩ := hw
      cases he
    | float =>
      obtain ⟨whole, part, he, -⟩ := hw
      cases whole <;> cases he
  | cons c inside =>
    refine ⟨hb, rfl, c, inside, rfl, ?_, fun _ => Lexeme.scan_number hw hr⟩
    have hfront := Lexeme.front_of_writes hw
    rw [Bool.or_eq_true, Bool.and_eq_true, beq_iff_eq] at hfront
    rcases hfront with hd | ⟨rfl, -⟩
    · exact Word.isBlank_of_isPart (Lexeme.isPart_of_isDigit hd)
    · rfl

/-- A string fits anywhere. -/
theorem fits_string {quote : Quote} {raw : List Char} (hb : ∀ c ∈ blank, isBlank c = true)
    (hq : quote.Encloses raw) :
    Fits ⟨blank, quote.char :: raw ++ [quote.char], .string quote (String.ofList raw)⟩ rest := by
  refine ⟨hb, rfl, quote.char, raw ++ [quote.char], rfl, by cases quote <;> rfl, fun _ => ?_⟩
  rw [List.append_assoc, List.singleton_append]
  exact Lexeme.scan_string hq

/-- A sign fits in front of what makes no longer one. -/
theorem fits_lone {c : Char} (hb : ∀ d ∈ blank, isBlank d = true) (hc : isBlank c = false)
    (hk : (Lexeme.single c).isTrivia = false) (h : Lexeme.Lone c rest) :
    Fits ⟨blank, [c], Lexeme.single c⟩ rest :=
  ⟨hb, hk, c, [], rfl, hc, fun _ => Lexeme.scan_lone h⟩

/-- A sign with a sign of equality fits anywhere. -/
theorem fits_double {c : Char} {kind : TokenKind} (hb : ∀ d ∈ blank, isBlank d = true)
    (h : Lexeme.withEquals c = some kind) : Fits ⟨blank, [c, '='], kind⟩ rest := by
  refine ⟨hb, ?_, c, ['='], rfl, ?_, fun _ => Lexeme.scan_double h⟩ <;>
    unfold Lexeme.withEquals at h <;> split at h <;> cases h <;> rfl

end Piece

/-! ### Cutting pieces off -/

namespace Lexer

variable {p : Piece} {ps : List Piece} {rest : List Char}

/-- The next token is that of a piece that fits. -/
theorem next_of_fitsAt {guid : GuidProgress} (h : p.FitsAt (guid == .colon) rest) (here : Position)
    (afterComment : Bool) : (Lexer.mk (p.written ++ rest) here afterComment guid).next =
      ⟨⟨p.kind, (here.after p.blank).upTo (here.after p.written),
        p.blank.isEmpty && !afterComment⟩, none,
        ⟨rest, here.after p.written, false, guid.step p.kind⟩⟩ := by
  obtain ⟨c, inside, ht, hc, hscan⟩ := h.scan
  have hstop : ∀ d, (p.text ++ rest).head? = some d → isBlank d = false := by
    rw [ht]
    rintro d ⟨⟩
    exact hc
  have hd : (p.written ++ rest).dropWhile isBlank = c :: (inside ++ rest) := by
    rw [Piece.written, List.append_assoc, Lexeme.dropWhile_all h.blank hstop, ht]
    rfl
  have hb : (p.written ++ rest).takeWhile isBlank = p.blank := by
    rw [Piece.written, List.append_assoc, Lexeme.takeWhile_all h.blank hstop]
  rw [next_eq_scan (l := ⟨p.written ++ rest, here, afterComment, guid⟩) hd]
  simp only [Lexer.here, Lexer.blank, hb, hscan, h.visible, Option.map_none]
  rw [Piece.written, Position.after_append]

/-- **A text that is put together from pieces is cut into them again.** -/
theorem kept_of_cutFrom {guid : GuidProgress} (h : Piece.CutFrom guid ps rest) (here : Position) :
    ∃ l : Lexer, l = ⟨rest, here.after (Piece.join ps), false,
        ps.foldl (fun g p => g.step p.kind) guid⟩ ∧
      (Lexer.mk (Piece.join ps ++ rest) here false guid).kept =
        Piece.tokensFrom here ps ++ l.kept ∧
      (Lexer.mk (Piece.join ps ++ rest) here false guid).steps.filterMap LexStep.problem =
        l.steps.filterMap LexStep.problem := by
  induction ps generalizing here guid with
  | nil => exact ⟨_, rfl, rfl, rfl⟩
  | cons p ps ih =>
    obtain ⟨hp, hps⟩ := h
    have hnext := next_of_fitsAt hp here false
    have hk : p.kind ≠ .eof := by
      obtain ⟨c, inside, -, -, hscan⟩ := hp.scan
      have := Lexeme.scan_kind_ne_eof (guid == .colon) c (inside ++ (Piece.join ps ++ rest))
      rwa [hscan] at this
    have htext : Piece.join (p :: ps) ++ rest = p.written ++ (Piece.join ps ++ rest) := by
      rw [Piece.join_cons, List.append_assoc]
    obtain ⟨l, hl, hkept, hproblems⟩ := ih hps (here.after p.written)
    refine ⟨l, by rw [hl, Piece.join_cons, Position.after_append, List.foldl_cons], ?_, ?_⟩
    · rw [htext, kept_of_not_isTrivia (by rw [hnext]; exact hp.visible) (by rwa [hnext]), hnext]
      simp only [hkept, Piece.tokensFrom, List.cons_append, Piece.token, Bool.not_false,
        Bool.and_true]
    · rw [htext, steps, dif_neg (by rwa [hnext]), hnext, List.filterMap_cons]
      exact hproblems

end Lexer

/-- **The tokens of a source that is put together from pieces**, with white space behind them. -/
theorem TokenStream.ofText_of_cutFrom {source : String} {ps : List Piece} {tail : List Char}
    (text : source.toList = Piece.join ps ++ tail) (cut : Piece.CutFrom .none ps tail)
    (blank : ∀ c ∈ tail, isBlank c = true) (front : source.toList.head? ≠ some '\uFEFF') :
    ∃ stop : Token, stop.kind = .eof ∧
      TokenStream.ofText source = ⟨Piece.tokensFrom .origin ps, stop, []⟩ := by
  obtain ⟨l, hl, hkept, hproblems⟩ := Lexer.kept_of_cutFrom cut .origin
  have hd : l.rest.dropWhile isBlank = [] := by
    rw [hl]
    rw [← List.append_nil tail]
    exact Lexeme.dropWhile_all blank (by simp)
  have he : l.next.token.kind = .eof := by rw [Lexer.next_eq_eof hd]
  have hp : l.next.problem = none := by rw [Lexer.next_eq_eof hd]
  rw [Lexer.kept_of_eof he] at hkept
  rw [Lexer.steps.eq_def l, dif_pos he, List.filterMap_cons, hp, List.filterMap_nil] at hproblems
  refine ⟨l.next.token, he, ?_⟩
  rw [ofText_eq_kept, Lexer.ofText_of_head? front, text, hkept, hproblems, List.dropLast_concat,
    List.getLastD_concat]

/-- **A text of pieces that fit** has the tokens of the pieces. -/
theorem TokenStream.ofText_of_allFit {source : String} {ps : List Piece} {tail : List Char}
    (text : source.toList = Piece.join ps ++ tail) (fit : Piece.AllFit ps tail)
    (blank : ∀ c ∈ tail, isBlank c = true) (front : source.toList.head? ≠ some '\uFEFF') :
    ∃ stop : Token, stop.kind = .eof ∧
      TokenStream.ofText source = ⟨Piece.tokensFrom .origin ps, stop, []⟩ :=
  ofText_of_cutFrom text (fit.cutFrom .none) blank front

/-- White space between two tokens. -/
structure Gap where
  text : List Char
  blank : ∀ c ∈ text, isBlank c = true
  nonempty : text ≠ []

/-- White space between two pieces starts with white space. -/
theorem Gap.head (gap : Gap) (rest : List Char) :
    ∀ d, (gap.text ++ rest).head? = some d → isBlank d = true := by
  intro d hd
  obtain ⟨c, more, hc⟩ := List.exists_cons_of_ne_nil gap.nonempty
  rw [hc] at hd
  obtain rfl : c = d := Option.some.inj hd
  exact gap.blank c (by simp [hc])

/-! ### The text between two tokens -/

/-- The span from the first of some tokens through the last. -/
def Token.across (us : List Token) : Span :=
  match us.head?, us.getLast? with
  | some first, some last => first.span.through last.span
  | _, _ => .origin

namespace Piece

variable {p : Piece} {ps : List Piece} {here : Position} {before : List Char}

/-- Pieces as text, without the white space in front of the first. -/
def tight : List Piece → List Char
  | [] => []
  | p :: ps => p.text ++ join ps

/-- A token starts behind the white space of its piece. -/
theorem start_token (here : Position) (p : Piece) :
    (p.token here).span.start = here.offset + byteSize p.blank :=
  Position.offset_after here p.blank

/-- It ends where the piece does. -/
theorem stop_token (here : Position) (p : Piece) :
    (p.token here).span.stop = here.offset + byteSize p.written :=
  Position.offset_after here p.written

/-- The last of some pieces ends where all of them do. -/
theorem stop_getLast {last : Token} (h : (tokensFrom here ps).getLast? = some last) :
    last.span.stop = here.offset + byteSize (join ps) := by
  induction ps generalizing here with
  | nil => cases h
  | cons p ps ih =>
    rw [join_cons]
    cases ps with
    | nil =>
      obtain rfl : p.token here = last := Option.some.inj h
      rw [stop_token, written, join_nil, List.append_nil]
    | cons q qs =>
      rw [tokensFrom, tokensFrom, List.getLast?_cons_cons, ← tokensFrom] at h
      rw [ih h, Position.offset_after, written]
      simp only [Text.byteSize_append]
      omega

/-- **The text from the first of some pieces through the last of them.** -/
theorem slice?_across (hh : here.offset = byteSize before) (hne : ps ≠ []) (after : List Char) :
    Text.slice? (before ++ (join ps ++ after)) (Token.across (tokensFrom here ps)).start
      (Token.across (tokensFrom here ps)).stop = some (tight ps) := by
  obtain ⟨p, ps, rfl⟩ := List.exists_cons_of_ne_nil hne
  have hl : (tokensFrom here (p :: ps)).getLast? = some _ :=
    List.getLast?_eq_some_getLast (List.cons_ne_nil _ _)
  have hstop := stop_getLast hl
  have hle : (p.token here).span.stop ≤ here.offset + byteSize (join (p :: ps)) := by
    rw [stop_token, join_cons, Text.byteSize_append]
    omega
  have hacross : Token.across (tokensFrom here (p :: ps)) =
      { (p.token here).span with stop := here.offset + byteSize (join (p :: ps)) } := by
    rw [Token.across, hl, tokensFrom]
    dsimp only [List.head?_cons]
    rw [Span.through, ← hstop, Nat.max_eq_left (hstop ▸ hle)]
  have hstart : (p.token here).span.start = byteSize (before ++ p.blank) := by
    rw [start_token, hh, Text.byteSize_append]
  have hsize : here.offset + byteSize (join (p :: ps)) =
      byteSize (before ++ p.blank) + byteSize (tight (p :: ps)) := by
    rw [hh, join_cons, tight, written]
    simp only [Text.byteSize_append]
    omega
  rw [hacross, hsize]
  dsimp only
  rw [hstart, show before ++ (join (p :: ps) ++ after) =
    (before ++ p.blank) ++ (tight (p :: ps) ++ after) by simp [tight, written]]
  exact Text.slice?_append ..

end Piece
end Ndf
