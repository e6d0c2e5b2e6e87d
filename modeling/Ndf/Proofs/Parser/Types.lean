/-
# Types as they are written

A written type is a name with any number of parameters between `<` and `>`, which are written types
again; two of them have a comma or white space between them.  It is read as the type that it shows
(`TypeText.ref`), if it is not nested deeper than there are levels.

An equals sign joined to a type may be cut together with its last `>`, as `>=`.  Such a token is
read half, so the equals sign is what comes next (`Parser.Reads.type_assigned`).
-/

import Ndf.Proofs.Parser.Forms
import Ndf.Proofs.Tree.Bare

namespace Ndf

open Text (isBlank)

/-! ### Texts -/

/-- White space, or nothing. -/
structure Blank where
  text : List Char
  blank : ∀ c ∈ text, isBlank c = true

/-- A word as it is written, keywords included. -/
structure WordText where
  text : List Char
  word : Word.IsWord text

/-- What stands between two parameters. -/
inductive Separator where
  | comma (before after : Blank)
  | space (gap : Gap)

mutual

/-- A type as it is written. -/
inductive TypeText where
  | name (name : WordText)
  | applied (name : WordText) (inner : Blank) (params : ParamTexts)

/-- Type parameters as they are written, with the closing `>`. -/
inductive ParamTexts where
  | last (type : TypeText) (close : Blank)
  | more (type : TypeText) (separator : Separator) (rest : ParamTexts)

end

namespace Separator

/-- A comma with the white space around it, or white space alone. -/
def text : Separator → List Char
  | .comma before after => before.text ++ ',' :: after.text
  | .space gap => gap.text

/-- The comma, if it is one. -/
def pieces : Separator → List Piece
  | .comma before _ => [⟨before.text, [','], .comma⟩]
  | .space _ => []

/-- The white space in front of what follows. -/
def behind : Separator → List Char
  | .comma _ after => after.text
  | .space gap => gap.text

end Separator

/-- A word as a piece of text. -/
def WordText.piece (w : WordText) (blank : List Char) : Piece :=
  ⟨blank, w.text, .word (String.ofList w.text) (Word.classify (String.ofList w.text))⟩

/-- The sign that closes parameters.  If the type is tight, an equals sign belongs to it. -/
def Blank.closer (b : Blank) : Bool → Piece
  | false => ⟨b.text, ['>'], .gt⟩
  | true => ⟨b.text, ['>', '='], .gtEq⟩

mutual

/-- The text of a type. -/
def TypeText.text : TypeText → List Char
  | .name n => n.text
  | .applied n inner params => n.text ++ '<' :: (inner.text ++ params.text)

/-- The parameters of a type as text, up to the closing sign. -/
def ParamTexts.text : ParamTexts → List Char
  | .last t close => t.text ++ close.text ++ ['>']
  | .more t sep rest => t.text ++ sep.text ++ rest.text

end

mutual

/-- How deep parameters are nested in a type. -/
def TypeText.nesting : TypeText → Nat
  | .name _ => 0
  | .applied _ _ params => params.nesting + 1

/-- The levels of the deepest of them. -/
def ParamTexts.nesting : ParamTexts → Nat
  | .last t _ => t.nesting
  | .more t _ rest => max t.nesting rest.nesting

end

mutual

/-- The type that is written, without places. -/
def TypeText.ref : TypeText → TypeRef
  | .name n =>
    ⟨⟨String.ofList n.text, .zero⟩, Word.classify (String.ofList n.text), [], .zero⟩
  | .applied n _ params =>
    ⟨⟨String.ofList n.text, .zero⟩, Word.classify (String.ofList n.text), params.refs, .zero⟩

/-- The types they are. -/
def ParamTexts.refs : ParamTexts → List TypeRef
  | .last t _ => [t.ref]
  | .more t _ rest => t.ref :: rest.refs

end

mutual

/-- The tokens of a type, with white space in front. -/
def TypeText.pieces (blank : List Char) : TypeText → List Piece
  | .name n => [n.piece blank]
  | .applied n inner params =>
    n.piece blank :: ⟨[], ['<'], .lt⟩ :: params.pieces false inner.text

/-- Their tokens; if `tight`, the last one is `>=`. -/
def ParamTexts.pieces (tight : Bool) (blank : List Char) : ParamTexts → List Piece
  | .last t close => t.pieces blank ++ [close.closer tight]
  | .more t sep rest => t.pieces blank ++ (sep.pieces ++ rest.pieces tight sep.behind)

end

/-- The tokens of a type with an equals sign joined to it. -/
def TypeText.tightPieces (blank : List Char) : TypeText → List Piece
  | .name n => [n.piece blank, ⟨[], ['='], .eq⟩]
  | .applied n inner params =>
    n.piece blank :: ⟨[], ['<'], .lt⟩ :: params.pieces true inner.text

/-- The tokens of a type and of the equals sign behind it. -/
def TypeText.assigned (t : TypeText) (blank : List Char) : Bool → List Piece
  | false => t.pieces blank ++ [⟨[' '], ['='], .eq⟩]
  | true => t.tightPieces blank

open Piece (join tokensFrom AllFit)

/-- The tokens of a separator as text. -/
theorem Separator.join_pieces (s : Separator) (ps : List Piece) (text : List Char)
    (h : join ps = s.behind ++ text) : join (s.pieces ++ ps) = s.text ++ text := by
  cases s with
  | comma before after =>
    rw [Piece.join_append, h]
    simp [pieces, behind, Separator.text, Piece.written]
  | space gap => rwa [pieces, List.nil_append]

mutual

/-- Those of a type. -/
theorem TypeText.join_pieces (blank : List Char) :
    ∀ t : TypeText, join (t.pieces blank) = blank ++ t.text
  | .name n => by simp [TypeText.pieces, WordText.piece, TypeText.text, Piece.written]
  | .applied n inner params => by
    rw [TypeText.pieces, Piece.join_cons, Piece.join_cons, params.join_pieces false]
    simp [WordText.piece, TypeText.text, Piece.written]

/-- Those of its parameters, with the sign of equality if it is in the last one. -/
theorem ParamTexts.join_pieces (tight : Bool) (blank : List Char) : ∀ ps : ParamTexts,
    join (ps.pieces tight blank) = blank ++ (ps.text ++ if tight then ['='] else [])
  | .last t close => by
    rw [ParamTexts.pieces, Piece.join_append, t.join_pieces]
    cases tight <;> simp [Blank.closer, ParamTexts.text, Piece.written]
  | .more t sep rest => by
    rw [ParamTexts.pieces, Piece.join_append, t.join_pieces,
      sep.join_pieces _ _ (rest.join_pieces tight sep.behind)]
    simp [ParamTexts.text]

end

/-- Those of a type with the sign of equality behind it. -/
theorem TypeText.join_assigned (blank : List Char) (t : TypeText) (tight : Bool) :
    join (t.assigned blank tight) =
      blank ++ (t.text ++ if tight then ['='] else [' ', '=']) := by
  cases tight with
  | false => simp [assigned, t.join_pieces, Piece.written]
  | true =>
    cases t with
    | name n => simp [assigned, tightPieces, WordText.piece, text, Piece.written]
    | applied n inner params =>
      rw [assigned, tightPieces, Piece.join_cons, Piece.join_cons, params.join_pieces true]
      simp [WordText.piece, text, Piece.written]

/-! ### Tokens -/

/-- What stands behind a type: neither does it go on with the last word, nor with `>=`. -/
def Apart (rest : List Char) : Prop :=
  ∀ d, rest.head? = some d → Word.isPart d = false ∧ d ≠ '='

/-- At the end nothing goes on with a word. -/
theorem apart_nil : Apart [] := by
  rintro d ⟨⟩

/-- Nor does a character that is no part of one. -/
theorem apart_cons {c : Char} {rest : List Char} (h : Word.isPart c = false ∧ c ≠ '=') :
    Apart (c :: rest) := by
  rintro d ⟨⟩
  exact h

/-- White space is no part of a word. -/
theorem apart_of_isBlank {c : Char} (h : isBlank c = true) : Word.isPart c = false ∧ c ≠ '=' := by
  refine ⟨Word.isPart_of_isBlank h, ?_⟩
  rintro rfl
  exact absurd h (by decide)

/-- So white space may stand in front. -/
theorem Apart.behind {rest : List Char} (h : Apart rest) (blank : Blank) :
    Apart (blank.text ++ rest) := by
  obtain ⟨text, hblank⟩ := blank
  cases text with
  | nil => exact h
  | cons c text => exact apart_cons (apart_of_isBlank (hblank c (by simp)))

/-- A separator stands apart from the type before it. -/
theorem Separator.apart (s : Separator) (rest : List Char) : Apart (s.text ++ rest) := by
  cases s with
  | comma before after =>
    have hcomma : Apart (',' :: (after.text ++ rest)) := apart_cons (by decide)
    have := hcomma.behind before
    rwa [← List.cons_append, ← List.append_assoc] at this
  | space gap => exact fun d hd => apart_of_isBlank (gap.head rest d hd)

/-- Behind it there is white space. -/
theorem Separator.blank_behind (s : Separator) : ∀ c ∈ s.behind, isBlank c = true := by
  cases s with
  | comma before after => exact after.blank
  | space gap => exact gap.blank

/-- A word starts with a character that starts one. -/
theorem WordText.head (w : WordText) (rest : List Char) :
    ∃ c inside, w.text ++ rest = c :: inside ∧ Word.isStart c = true := by
  obtain ⟨text, word⟩ := w
  cases text with
  | nil => cases word
  | cons c inside => exact ⟨c, inside ++ rest, rfl, word.1⟩

/-- So does a type. -/
theorem TypeText.head (t : TypeText) (rest : List Char) :
    ∃ c inside, t.text ++ rest = c :: inside ∧ Word.isStart c = true := by
  cases t with
  | name n => exact n.head rest
  | applied n inner params =>
    rw [text, List.append_assoc]
    exact n.head _

/-- So do the parameters of one. -/
theorem ParamTexts.head (ps : ParamTexts) (rest : List Char) :
    ∃ c inside, ps.text ++ rest = c :: inside ∧ Word.isStart c = true := by
  cases ps <;>
  · rw [text, List.append_assoc, List.append_assoc]
    exact TypeText.head _ _

/-- No type starts with an equals sign. -/
theorem head_ne_eq {b text : List Char} (hb : ∀ c ∈ b, isBlank c = true)
    (h : ∃ c inside, text = c :: inside ∧ Word.isStart c = true) :
    (b ++ text).head? ≠ some '=' := by
  obtain ⟨c, inside, rfl, hc⟩ := h
  cases b with
  | nil =>
    rintro ⟨⟩
    exact absurd hc (by decide)
  | cons d b =>
    rintro ⟨⟩
    exact absurd (hb '=' (by simp)) (by decide)

/-- A sign of types in front of what is no equals sign. -/
theorem lone_of_ne_eq {c : Char} {rest : List Char} (hc : c = '<' ∨ c = '>' ∨ c = ',' ∨ c = '=')
    (h : rest.head? ≠ some '=') : Lexeme.Lone c rest := by
  rcases hc with rfl | rfl | rfl | rfl <;>
  · refine ⟨?_, rfl, rfl, fun _ => h⟩
    simp [Lexeme.Opens]

/-- A word is read as one token in front of what is no part of it. -/
theorem WordText.fits (w : WordText) {blank rest : List Char} (hb : ∀ c ∈ blank, isBlank c = true)
    (hr : ∀ d, rest.head? = some d → Word.isPart d = false) : (w.piece blank).Fits rest :=
  Piece.fits_word hb w.word hr

/-- So is the closing sign, alone or in one with a sign of equality. -/
theorem Blank.fits_closer (b : Blank) {tight : Bool} {rest : List Char}
    (hr : tight = false → Apart rest) : (b.closer tight).Fits rest := by
  cases tight with
  | false =>
    exact Piece.fits_lone b.blank rfl rfl
      (lone_of_ne_eq (by simp) fun h => (hr rfl '=' h).2 rfl)
  | true => exact Piece.fits_double b.blank rfl

/-- So is a comma, which no sign of equality follows. -/
theorem Separator.fits (s : Separator) {ps : List Piece} {rest : List Char} (h : AllFit ps rest)
    (hne : (join ps ++ rest).head? ≠ some '=') : AllFit (s.pieces ++ ps) rest := by
  cases s with
  | comma before after =>
    exact ⟨Piece.fits_lone before.blank rfl rfl (lone_of_ne_eq (by simp) hne), h⟩
  | space gap => exact h

mutual

/-- So is a type, token by token. -/
theorem TypeText.fits : ∀ (t : TypeText) {blank rest : List Char},
    (∀ c ∈ blank, isBlank c = true) → Apart rest → AllFit (t.pieces blank) rest
  | .name n, _, _, hb, hr => ⟨n.fits hb fun d hd => (hr d hd).1, trivial⟩
  | .applied n inner params, _, _, hb, hr => by
    refine ⟨n.fits hb (by rintro d ⟨⟩; decide), Piece.fits_lone (by simp) rfl rfl
      (lone_of_ne_eq (by simp) ?_), params.fits false inner.blank fun _ => hr⟩
    rw [params.join_pieces, List.append_assoc, List.append_assoc]
    exact head_ne_eq inner.blank (params.head _)

/-- So are its parameters. -/
theorem ParamTexts.fits : ∀ (ps : ParamTexts) (tight : Bool) {blank rest : List Char},
    (∀ c ∈ blank, isBlank c = true) → (tight = false → Apart rest) →
      AllFit (ps.pieces tight blank) rest
  | .last t close, tight, _, rest, hb, hr => by
    have hcloser : Apart (join [close.closer tight] ++ rest) := by
      have hgt {more : List Char} : Apart (close.text ++ ('>' :: more)) :=
        (apart_cons (by decide)).behind close
      cases tight <;> simpa [Blank.closer, Piece.written] using hgt
    exact Piece.allFit_append.2 ⟨t.fits hb hcloser, close.fits_closer hr, trivial⟩
  | .more t sep more, tight, _, rest, hb, hr => by
    have hmore := more.join_pieces tight sep.behind
    refine Piece.allFit_append.2 ⟨t.fits hb ?_, sep.fits (more.fits tight sep.blank_behind hr) ?_⟩
    · rw [sep.join_pieces _ _ hmore, List.append_assoc]
      exact sep.apart _
    · rw [hmore, List.append_assoc, List.append_assoc]
      exact head_ne_eq sep.blank_behind (more.head _)

end

/-- A type with an equals sign, which is no part of a longer sign. -/
theorem TypeText.fits_assigned (t : TypeText) (tight : Bool) {blank rest : List Char}
    (hb : ∀ c ∈ blank, isBlank c = true) (hr : rest.head? ≠ some '=') :
    AllFit (t.assigned blank tight) rest := by
  have hequals {gap : List Char} (hgap : ∀ c ∈ gap, isBlank c = true) :
      AllFit [⟨gap, ['='], .eq⟩] rest :=
    ⟨Piece.fits_lone hgap rfl rfl (lone_of_ne_eq (by simp) hr), trivial⟩
  cases tight with
  | false =>
    exact Piece.allFit_append.2 ⟨t.fits hb (apart_cons (by decide)),
      hequals (List.forall_mem_singleton.2 rfl)⟩
  | true =>
    cases t with
    | name n => exact ⟨n.fits hb (by rintro d ⟨⟩; decide), hequals (by simp)⟩
    | applied n inner params =>
      refine ⟨n.fits hb (by rintro d ⟨⟩; decide), Piece.fits_lone (by simp) rfl rfl
        (lone_of_ne_eq (by simp) ?_), params.fits true inner.blank (by simp)⟩
      rw [params.join_pieces, List.append_assoc, List.append_assoc]
      exact head_ne_eq inner.blank (params.head _)

/-- A type starts with its name. -/
theorem TypeText.front (t : TypeText) (here : Position) (blank : List Char) :
    ∃ (x : Token) (xs : List Token), tokensFrom here (t.pieces blank) = x :: xs ∧
      ∃ text wordClass, x.kind = .word text wordClass := by
  cases t <;> exact ⟨_, _, rfl, _, _, rfl⟩

/-- A type starts with a word. -/
theorem TypeText.assigned_front (t : TypeText) (tight : Bool) (here : Position)
    (blank : List Char) : ∃ (x : Token) (xs : List Token),
      tokensFrom here (t.assigned blank tight) = x :: xs ∧
      ∃ text wordClass, x.kind = .word text wordClass := by
  cases tight with
  | false =>
    obtain ⟨x, xs, hx, hk⟩ := t.front here blank
    exact ⟨x, _, by rw [assigned, Piece.tokensFrom_append, hx]; rfl, hk⟩
  | true => cases t <;> exact ⟨_, _, rfl, _, _, rfl⟩

/-- So do its parameters. -/
theorem ParamTexts.front (ps : ParamTexts) (tight : Bool) (here : Position) (blank : List Char) :
    ∃ (x : Token) (xs : List Token), tokensFrom here (ps.pieces tight blank) = x :: xs ∧
      ∃ text wordClass, x.kind = .word text wordClass := by
  cases ps with
  | last t close =>
    obtain ⟨x, xs, hx, hk⟩ := t.front here blank
    exact ⟨x, _, by rw [pieces, Piece.tokensFrom_append, hx]; rfl, hk⟩
  | more t sep rest =>
    obtain ⟨x, xs, hx, hk⟩ := t.front here blank
    exact ⟨x, _, by rw [pieces, Piece.tokensFrom_append, hx]; rfl, hk⟩

/-- Parameters end with the sign that closes them. -/
theorem ParamTexts.closed (tight : Bool) : ∀ (ps : ParamTexts) (blank : List Char),
    ∃ qs close, ps.pieces tight blank = qs ++ [Blank.closer close tight]
  | .last t close, blank => ⟨t.pieces blank, close, rfl⟩
  | .more t sep rest, blank => by
    obtain ⟨qs, close, h⟩ := rest.closed tight sep.behind
    exact ⟨t.pieces blank ++ (sep.pieces ++ qs), close, by simp [pieces, h]⟩

/-- A type and an equals sign end with that sign. -/
theorem TypeText.assigned_closed (t : TypeText) (blank : List Char) (tight : Bool) :
    ∃ qs p, t.assigned blank tight = qs ++ [p] ∧ (p.kind = .eq ∨ p.kind = .gtEq) := by
  cases tight with
  | false => exact ⟨t.pieces blank, _, rfl, .inl rfl⟩
  | true =>
    cases t with
    | name n => exact ⟨[n.piece blank], _, rfl, .inl rfl⟩
    | applied n inner params =>
      obtain ⟨qs, close, h⟩ := params.closed true inner.text
      refine ⟨n.piece blank :: ⟨[], ['<'], .lt⟩ :: qs, close.closer true, ?_, .inr rfl⟩
      rw [assigned, tightPieces, h]
      rfl

/-- Behind a type that another one follows stands no `<`. -/
theorem Separator.next (s : Separator) {here : Position} {x : Token} {xs : List Token}
    {text : String} {wordClass : WordClass} (hx : x.kind = .word text wordClass) :
    ∀ u ∈ (tokensFrom here s.pieces ++ x :: xs).head?, u.kind ≠ .lt := by
  cases s with
  | comma before after =>
    rintro u ⟨⟩
    nofun
  | space gap =>
    rintro u ⟨⟩
    rw [hx]
    nofun

/-! ### Runs -/

namespace Parser

variable {src : Source} {g : Grammar} {n : Nat} {c : Cursor} {t : Token} {ts : List Token}
  {here : Position} {blank : List Char}

/-- What is left behind the sign that closes parameters: the second half of it, if it is tight. -/
def Leaves (tight : Bool) (ts : List Token) (c d : Cursor) : Prop :=
  d.depth = c.depth ∧ ∃ us, d.rest = us ++ ts ∧ us.map Token.kind = if tight then [.eq] else []

/-- The closing sign ends the parameters. -/
theorem Reads.closer {v : Token} (close : Blank) (tight : Bool) (h : c.rest = v :: ts)
    (hv : v.kind = (close.closer tight).kind) (read : List TypeRef) :
    ∃ d, Reads src (typeParamEnd read) c (.inr read.reverse) d [] ∧ Leaves tight ts c d := by
  have hcomma : Reads src (Parser.eat .comma) c false c [] := by
    refine .eat_other ?_
    rw [headD_of_rest h, hv]
    cases tight <;> simp [Blank.closer]
  cases tight with
  | false =>
    refine ⟨c.beyond [v], .bind hcomma (.peek ?_), rfl, [], Cursor.rest_beyond h, rfl⟩
    rw [headD_of_rest h, hv]
    exact .bind (.bump h) (.pure _)
  | true =>
    refine ⟨⟨v.secondHalf :: ts, c.count + 1, v.firstHalf.span, c.depth⟩, .bind hcomma (.peek ?_),
      rfl, [v.secondHalf], rfl, rfl⟩
    rw [headD_of_rest h, hv]
    exact .bind (.bumpHalf h) (.pure _)

/-- A separator does not. -/
theorem Reads.separator (s : Separator) (h : c.rest = tokensFrom here s.pieces ++ t :: ts)
    {text : String} {wordClass : WordClass} (ht : t.kind = .word text wordClass)
    (read : List TypeRef) : ∃ d, Reads src (typeParamEnd read) c (.inl read) d [] ∧
      d.rest = t :: ts ∧ d.depth = c.depth := by
  cases s with
  | comma before after =>
    obtain ⟨v, hus, hv⟩ : ∃ v, tokensFrom here (Separator.comma before after).pieces = [v] ∧
      v.kind = .comma := ⟨_, rfl, rfl⟩
    rw [hus] at h
    have hrest : (c.beyond [v]).rest = t :: ts := Cursor.rest_beyond h
    have heat : Reads src (Parser.eat v.kind) c true (c.beyond [v]) [] := .eat h
    rw [hv] at heat
    refine ⟨_, .bind heat (.peek ?_), hrest, rfl⟩
    rw [headD_of_rest hrest, ht]
    exact .pure _
  | space gap =>
    refine ⟨_, .bind (.eat_other ?_) (.peek ?_), h, rfl⟩
    · rw [headD_of_rest h, ht]
      simp
    · rw [headD_of_rest h, ht]
      exact .pure _

/-- A name without parameters. -/
theorem Reads.typeName {text : String} {wordClass : WordClass} (h : c.rest = t :: ts)
    (ht : t.kind = .word text wordClass) (hne : ∀ u ∈ ts.head?, u.kind ≠ .lt) :
    ∃ s, Reads src (typeRef g) c ⟨⟨text, t.span⟩, wordClass, [], s⟩ (c.beyond [t]) [] := by
  have hrest : (c.beyond [t]).rest = ts := Cursor.rest_beyond h
  have hlt : Lookahead.isKind ts 0 .lt = false := by
    cases ts with
    | nil => rfl
    | cons u ts => exact beq_false_of_ne fun he => hne u rfl (Option.some.inj he)
  refine ⟨(Mark.here src c).upTo (c.beyond [t]), .mark (.peek ?_)⟩
  rw [headD_of_rest h, ht]
  refine .bind (.name h ht _) (.ahead (.ite_neg ?_ (.bind (.pure []) (.close rfl _))))
  rw [hrest, hlt]
  simp

/-- A name with parameters, given what is read for these. -/
theorem Reads.applied {name : WordText} {inner : Blank} {ps : ParamTexts} {tight : Bool}
    (h : c.rest = tokensFrom here
      (name.piece blank :: ⟨[], ['<'], .lt⟩ :: ps.pieces tight inner.text) ++ ts)
    (hps : ∀ (c' : Cursor) {here' : Position}, c'.depth = c.depth →
      c'.rest = tokensFrom here' (ps.pieces tight inner.text) ++ ts →
      ∃ τs d, Reads src (typeParams g) c' τs d [] ∧ Leaves tight ts c' d ∧
        τs.map Bare.type = ps.refs) :
    ∃ τ d, Reads src (typeRef g) c τ d [] ∧ Leaves tight ts c d ∧
      Bare.type τ = (TypeText.applied name inner ps).ref := by
  obtain ⟨x, u, here', htokens, hx, hu, hj⟩ : ∃ (x u : Token) (here' : Position),
      tokensFrom here (name.piece blank :: ⟨[], ['<'], .lt⟩ :: ps.pieces tight inner.text) =
        x :: u :: tokensFrom here' (ps.pieces tight inner.text) ∧
      x.kind = .word (String.ofList name.text) (Word.classify (String.ofList name.text)) ∧
      u.kind = .lt ∧ u.joined = true := ⟨_, _, _, rfl, rfl, rfl, rfl⟩
  rw [htokens] at h
  have hrest : (c.beyond [x]).rest = u :: (tokensFrom here' (ps.pieces tight inner.text) ++ ts) :=
    Cursor.rest_beyond h
  obtain ⟨τs, d, hread, hleaves, hbare⟩ := hps (c.beyond [x, u]) rfl (Cursor.rest_beyond h)
  refine ⟨⟨⟨String.ofList name.text, x.span⟩, Word.classify (String.ofList name.text), τs,
    (Mark.here src c).upTo d⟩, d, .mark (.peek ?_), hleaves, ?_⟩
  · rw [headD_of_rest h, hx]
    refine .bind (.name h hx _) (.ahead (.ite_pos ?_ (.bind (.bump hrest) ?_)))
    · rw [hrest]
      show (some u.kind == some .lt && u.joined) = true
      rw [hu, hj]
      rfl
    · rw [← Cursor.beyond_append]
      exact hread.bind (.close rfl _)
  · rw [Bare.type, Bare.types_eq_map, hbare]
    rfl

/-- One parameter is read one level further down. -/
theorem Reads.typeParam {d : Cursor} {τ : TypeRef} (hd : c.depth < maxNesting)
    (h : Reads src (typeRef (.levels n)) c.down τ d []) (hdepth : d.depth = c.down.depth) :
    Reads src (Grammar.levels (n + 1)).type c τ d.up [] ∧ d.up.depth = c.depth := by
  refine ⟨h.deeper hd (hdepth ▸ Nat.succ_ne_zero _), ?_⟩
  rw [Cursor.up_depth, hdepth]
  rfl

mutual

/-- **A written type is read as the type that it shows**, if there are levels for it. -/
theorem Reads.type : ∀ (w : TypeText) {n : Nat} {c : Cursor} {here : Position} {blank : List Char}
    {ts : List Token}, src.Ended → w.nesting ≤ n → c.depth + w.nesting ≤ maxNesting →
      c.rest = tokensFrom here (w.pieces blank) ++ ts → (∀ u ∈ ts.head?, u.kind ≠ .lt) →
      ∃ τ d, Reads src (typeRef (.levels n)) c τ d [] ∧ d.rest = ts ∧ d.depth = c.depth ∧
        Bare.type τ = w.ref
  | .name _, _, _, _, _, _, _, _, _, hr, hne => by
    obtain ⟨s, hread⟩ := Reads.typeName hr rfl hne
    exact ⟨_, _, hread, Cursor.rest_beyond hr, rfl, rfl⟩
  | .applied _ _ _, 0, _, _, _, _, _, hn, _, _, _ => absurd hn (Nat.not_succ_le_zero _)
  | .applied name inner ps, n + 1, c, _, _, ts, he, hn, hd, hr, _ => by
    obtain ⟨τ, d, hread, ⟨hdepth, us, hrest, hus⟩, hbare⟩ :
        ∃ τ d, Reads src (typeRef (.levels (n + 1))) c τ d [] ∧ Leaves false ts c d ∧
          Bare.type τ = (TypeText.applied name inner ps).ref :=
      Reads.applied hr fun _ _ hdepth hin =>
        Reads.types ps false he (Nat.le_of_succ_le_succ hn) (hdepth ▸ hd) hin []
    obtain rfl : us = [] := List.map_eq_nil_iff.1 hus
    exact ⟨τ, d, hread, hrest, hdepth, hbare⟩

/-- Written parameters are read in order, up to what closes them. -/
theorem Reads.types : ∀ (ps : ParamTexts) (tight : Bool) {n : Nat} {c : Cursor} {here : Position}
    {blank : List Char} {ts : List Token}, src.Ended → ps.nesting ≤ n →
      c.depth + ps.nesting < maxNesting → c.rest = tokensFrom here (ps.pieces tight blank) ++ ts →
      ∀ read, ∃ τs d,
        Reads src (loop (typeParamStep (.levels (n + 1))) read) c (read.reverse ++ τs) d [] ∧
          Leaves tight ts c d ∧ τs.map Bare.type = ps.refs
  | .last w close, tight, n, c, here, blank, ts, he, hn, hd, hr, read => by
    have ha := Eats.advances (typeParamStep_eats (advancing_levels (n + 1)))
    rw [ParamTexts.nesting] at hn hd
    rw [ParamTexts.pieces, Piece.tokensFrom_append, List.append_assoc] at hr
    obtain ⟨v, htoken, hv⟩ : ∃ v, tokensFrom (here.after (join (w.pieces blank)))
        [close.closer tight] = [v] ∧ v.kind = (close.closer tight).kind := ⟨_, rfl, rfl⟩
    rw [htoken] at hr
    obtain ⟨τ, d, hparam, hrest, hdepth, hbare⟩ := Reads.type w (c := c.down) he hn
      (show c.depth + 1 + _ ≤ _ by omega) hr (by rintro u ⟨⟩; rw [hv]; cases tight <;> nofun)
    obtain ⟨hparam, hup⟩ := hparam.typeParam (by omega) hdepth
    obtain ⟨d', hclose, hleaves⟩ :
        ∃ d', Reads src (typeParamEnd (τ :: read)) d.up (.inr (τ :: read).reverse) d' [] ∧
          Leaves tight ts d.up d' := Reads.closer (c := d.up) close tight hrest hv (τ :: read)
    rw [List.reverse_cons] at hclose
    exact ⟨[τ], d', .loop_end ha he (.bind hparam hclose), ⟨hleaves.1.trans hup, hleaves.2⟩,
      by rw [List.map_singleton, hbare]; rfl⟩
  | .more w sep rest, tight, n, c, here, blank, ts, he, hn, hd, hr, read => by
    have ha := Eats.advances (typeParamStep_eats (advancing_levels (n + 1)))
    rw [ParamTexts.nesting] at hn hd
    rw [ParamTexts.pieces, Piece.tokensFrom_append, Piece.tokensFrom_append, List.append_assoc,
      List.append_assoc] at hr
    obtain ⟨there, hthere⟩ : ∃ there, there =
      (here.after (join (w.pieces blank))).after (join sep.pieces) := ⟨_, rfl⟩
    rw [← hthere] at hr
    obtain ⟨x, xs, hx, text, wordClass, hk⟩ := rest.front tight there sep.behind
    rw [hx, List.cons_append] at hr
    obtain ⟨τ, d, hparam, hrest, hdepth, hbare⟩ := Reads.type w (n := n) (c := c.down) he
      (by omega) (show c.depth + 1 + _ ≤ _ by omega) hr (sep.next hk)
    obtain ⟨hparam, hup⟩ := hparam.typeParam (by omega) hdepth
    obtain ⟨e, hsep, hrest, hdepth⟩ :
        ∃ e, Reads src (typeParamEnd (τ :: read)) d.up (.inl (τ :: read)) e [] ∧
          e.rest = x :: (xs ++ ts) ∧ e.depth = d.up.depth :=
      Reads.separator (c := d.up) sep hrest hk (τ :: read)
    rw [← List.cons_append, ← hx] at hrest
    obtain ⟨τs, d', hloop, ⟨hdepth', hleaves⟩, hbares⟩ :=
      Reads.types rest tight (n := n) (c := e) he (by omega) (by omega) hrest (τ :: read)
    rw [List.reverse_cons, List.append_assoc] at hloop
    exact ⟨τ :: τs, d', .loop_next ha he (.bind hparam hsep) hloop,
      ⟨by rw [hdepth', hdepth, hup], hleaves⟩, by rw [List.map_cons, hbare, hbares]; rfl⟩

end

/-- A type with an equals sign is read up to that sign. -/
theorem Reads.type_assigned (w : TypeText) (tight : Bool) (he : src.Ended) (hn : w.nesting ≤ n)
    (hd : c.depth + w.nesting ≤ maxNesting)
    (hr : c.rest = tokensFrom here (w.assigned blank tight) ++ ts) :
    ∃ τ d u, Reads src (typeRef (.levels n)) c τ d [] ∧ d.rest = u :: ts ∧ u.kind = .eq ∧
      d.depth = c.depth ∧ Bare.type τ = w.ref := by
  cases tight with
  | false =>
    obtain ⟨u, hu, hk⟩ : ∃ u, tokensFrom (here.after (join (w.pieces blank)))
        [⟨[' '], ['='], .eq⟩] = [u] ∧ u.kind = .eq := ⟨_, rfl, rfl⟩
    rw [TypeText.assigned, Piece.tokensFrom_append, hu, List.append_assoc] at hr
    obtain ⟨τ, d, hread, hrest, hdepth, hbare⟩ :
        ∃ τ d, Reads src (typeRef (.levels n)) c τ d [] ∧ d.rest = u :: ts ∧ d.depth = c.depth ∧
          Bare.type τ = w.ref := Reads.type w he hn hd hr (by rintro v ⟨⟩; rw [hk]; nofun)
    exact ⟨τ, d, u, hread, hrest, hk, hdepth, hbare⟩
  | true =>
    cases w with
    | name name =>
      obtain ⟨x, u, htokens, hx, hu⟩ : ∃ (x u : Token),
          tokensFrom here ((TypeText.name name).assigned blank true) = [x, u] ∧
          x.kind = (name.piece blank).kind ∧ u.kind = .eq := ⟨_, _, rfl, rfl, rfl⟩
      rw [htokens] at hr
      obtain ⟨s, hread⟩ : ∃ s, Reads src (typeRef (.levels n)) c _ (c.beyond [x]) [] :=
        Reads.typeName hr hx (by rintro v ⟨⟩; rw [hu]; nofun)
      exact ⟨_, _, u, hread, Cursor.rest_beyond hr, hu, rfl, rfl⟩
    | applied name inner ps =>
      cases n with
      | zero => exact absurd hn (Nat.not_succ_le_zero _)
      | succ n =>
        obtain ⟨τ, d, hread, ⟨hdepth, us, hrest, hus⟩, hbare⟩ :
            ∃ τ d, Reads src (typeRef (.levels (n + 1))) c τ d [] ∧ Leaves true ts c d ∧
              Bare.type τ = (TypeText.applied name inner ps).ref :=
          Reads.applied hr fun _ _ hdepth hin =>
            Reads.types ps true he (Nat.le_of_succ_le_succ hn) (hdepth ▸ hd) hin []
        obtain ⟨v, rfl, hv⟩ := List.map_eq_singleton_iff.1 hus
        exact ⟨τ, d, v, hread, hrest, hv, hdepth, hbare⟩

end Parser

end Ndf
