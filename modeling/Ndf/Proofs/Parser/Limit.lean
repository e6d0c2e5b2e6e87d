/-
# The nesting limit is exact

`A is ` followed by openers, the number 1 and what closes the openers again is read with one level
for each opener.  As long as they are fewer than `maxNesting`, nothing is wrong with the source;
beyond that, the first `maxNesting` openers are read as they stand, and what is inside of them is
one fragment that is cut out and reported once (`parse_around`).

A parenthesis, a bracket, the start of an object and a minus sign open a level in four different
parsers.  That tokens are read alike wherever they stand with `n` levels left is `Settled n`, and
each opener takes it from `n` to `n + 1` (`Settled.paren` and so on).  The cut ends where the
fragment does, since its brackets are balanced (`fragment_pieces`).
-/

import Ndf.Proofs.Parser.Forms

namespace Ndf

/-- What opens a level: `(`, `[`, `T(X=` or a minus sign. -/
inductive Opener where
  | paren | bracket | object | minus
deriving DecidableEq, Repr

namespace Opener

/-- An opener as text. -/
def opening : Opener → List Char
  | .paren => ['(']
  | .bracket => ['[']
  | .object => ['T', '(', 'X', '=']
  | .minus => ['-']

/-- What closes an opener, as text. -/
def closing : Opener → List Char
  | .paren | .object => [')']
  | .bracket => [']']
  | .minus => []

/-- Openers, the number 1 and what closes them in reverse order. -/
def around (os : List Opener) : List Char :=
  os.flatMap opening ++ '1' :: os.reverse.flatMap closing

/-- The node that an opener makes of the expression inside: a group, a list of one element, an
object with the member `X`, or a negation. -/
def Wraps : Opener → Expr → Expr → Prop
  | .paren, inner, e => ∃ s, e = .group (some inner) s
  | .bracket, inner, e => ∃ s, e = .list [inner] 0 s
  | .object, inner, e => ∃ s₁ s₂ s₃ s₄,
      e = .object ⟨⟨"T", s₁⟩, [.member ⟨⟨"X", s₂⟩, none, some inner, false, s₃⟩], s₄⟩
  | .minus, inner, e => ∃ s, e = .unary .neg inner s

/-- These openers, the outermost first, and nothing else are around an expression. -/
def Surrounds : List Opener → Expr → Expr → Prop
  | [], inner, e => e = inner
  | o :: os, inner, e => ∃ e', Surrounds os inner e' ∧ o.Wraps e' e

/-! ### Texts -/

/-- The tokens of an opener. -/
def front (blank : List Char) : Opener → List Piece
  | .paren => [⟨blank, ['('], .lparen⟩]
  | .bracket => [⟨blank, ['['], .lbracket⟩]
  | .object => [⟨blank, ['T'], .word "T" .name⟩, ⟨[], ['('], .lparen⟩, ⟨[], ['X'], .word "X" .name⟩,
      ⟨[], ['='], .eq⟩]
  | .minus => [⟨blank, ['-'], .minus⟩]

/-- The tokens of what closes an opener. -/
def back : Opener → List Piece
  | .paren | .object => [⟨[], [')'], .rparen⟩]
  | .bracket => [⟨[], [']'], .rbracket⟩]
  | .minus => []

/-- The tokens of openers around the number 1, with white space in front of the first. -/
def pieces (blank : List Char) : List Opener → List Piece
  | [] => [⟨blank, ['1'], .number .decimal "1"⟩]
  | o :: os => o.front blank ++ (pieces [] os ++ o.back)

open Piece (join tight AllFit)

variable {blank rest : List Char} {os : List Opener} {o : Opener}

/-- The outermost opener stands in front, and what closes it behind. -/
theorem around_cons (o : Opener) (os : List Opener) :
    around (o :: os) = o.opening ++ (around os ++ o.closing) := by
  simp [around]

/-- The tokens of an opener as text. -/
theorem join_front (blank : List Char) (o : Opener) :
    join (o.front blank) = blank ++ o.opening := by
  cases o <;> simp [front, opening, Piece.written]

/-- Those of what closes it. -/
theorem join_back (o : Opener) : join o.back = o.closing := by
  cases o <;> rfl

/-- The tokens of all openers as text. -/
theorem join_pieces (blank : List Char) (os : List Opener) :
    join (pieces blank os) = blank ++ around os := by
  induction os generalizing blank with
  | nil => simp [pieces, around, Piece.written]
  | cons o os ih =>
    rw [pieces, Piece.join_append, Piece.join_append, join_front, join_back, ih, around_cons,
      List.nil_append, List.append_assoc]

/-- Without the white space in front they are the text itself. -/
theorem tight_pieces (blank : List Char) (os : List Opener) :
    tight (pieces blank os) = around os := by
  cases os with
  | nil => rfl
  | cons o os =>
    have h := join_pieces [] (o :: os)
    cases o <;> exact h

/-- A text of this form starts with a character that no other token goes on with. -/
theorem head_around (os : List Opener) (rest : List Char) :
    ∃ c ∈ ['(', '[', 'T', '-', '1'], (around os ++ rest).head? = some c := by
  cases os with
  | nil => exact ⟨'1', by simp, rfl⟩
  | cons o os => cases o <;> exact ⟨_, by simp, rfl⟩

/-- What stands behind such a text closes a bracket. -/
def Closes (rest : List Char) : Prop := ∀ d, rest.head? = some d → d = ')' ∨ d = ']'

/-- An opener is read as its tokens in front of another or of the number. -/
theorem fits_front (hb : ∀ c ∈ blank, Text.isBlank c = true) (o : Opener) (os : List Opener)
    (rest : List Char) : AllFit (o.front blank) (around os ++ rest) := by
  obtain ⟨c, hc, hhead⟩ := head_around os rest
  have hne (x : Char) (hx : x ∉ ['(', '[', 'T', '-', '1']) :
      (around os ++ rest).head? ≠ some x := by
    rw [hhead]
    rintro ⟨⟩
    exact hx hc
  have hn : ∀ c ∈ ([] : List Char), Text.isBlank c = true := by simp
  cases o with
  | paren =>
    refine ⟨Piece.fits_lone hb rfl rfl ⟨?_, rfl, rfl, fun h => absurd rfl h⟩, trivial⟩
    rintro (h | h | h | ⟨-, h⟩ | ⟨h, -⟩ | ⟨h, -⟩)
    all_goals first | cases h | exact absurd h (hne '*' (by decide))
  | bracket =>
    refine ⟨Piece.fits_lone hb rfl rfl ⟨?_, rfl, rfl, fun h => absurd rfl h⟩, trivial⟩
    rintro (h | h | h | ⟨h, -⟩ | ⟨h, -⟩ | ⟨h, -⟩) <;> cases h
  | minus =>
    refine ⟨Piece.fits_lone hb rfl rfl ⟨?_, rfl, rfl, fun h => absurd rfl h⟩, trivial⟩
    rintro (h | h | h | ⟨h, -⟩ | ⟨h, -⟩ | ⟨h, -⟩) <;> cases h
  | object =>
    refine ⟨Piece.fits_word hb ⟨rfl, by simp⟩ (by rintro d ⟨⟩; decide),
      Piece.fits_lone hn rfl rfl ?_, Piece.fits_word hn ⟨rfl, by simp⟩ (by rintro d ⟨⟩; decide),
      Piece.fits_lone hn rfl rfl ?_, trivial⟩
    · refine ⟨?_, rfl, rfl, fun h => absurd rfl h⟩
      rintro (h | h | h | ⟨-, h⟩ | ⟨h, -⟩ | ⟨h, -⟩) <;> cases h
    · refine ⟨?_, rfl, rfl, fun _ => hne '=' (by decide)⟩
      rintro (h | h | h | ⟨h, -⟩ | ⟨h, -⟩ | ⟨h, -⟩) <;> cases h

/-- So is what closes it, whatever follows. -/
theorem fits_back (o : Opener) (rest : List Char) : AllFit o.back rest := by
  have hn : ∀ c ∈ ([] : List Char), Text.isBlank c = true := by simp
  cases o with
  | minus => trivial
  | _ =>
    refine ⟨Piece.fits_lone hn rfl rfl ⟨?_, rfl, rfl, fun h => absurd rfl h⟩, trivial⟩
    rintro (h | h | h | ⟨h, -⟩ | ⟨h, -⟩ | ⟨h, -⟩) <;> cases h

/-- Behind it there is always a closing sign. -/
theorem closes_back (o : Opener) (hr : Closes rest) : Closes (o.closing ++ rest) := by
  cases o with
  | minus => exact hr
  | bracket =>
    rintro d ⟨⟩
    exact .inr rfl
  | _ =>
    rintro d ⟨⟩
    exact .inl rfl

/-- The whole text is read as its tokens. -/
theorem allFit_pieces (hb : ∀ c ∈ blank, Text.isBlank c = true) (hr : Closes rest) :
    AllFit (pieces blank os) rest := by
  induction os generalizing blank rest with
  | nil =>
    refine ⟨Piece.fits_number hb ⟨by simp, List.forall_mem_singleton.2 rfl⟩ fun d hd => ?_, trivial⟩
    rcases hr d hd with rfl | rfl <;> decide
  | cons o os ih =>
    refine Piece.allFit_append.2 ⟨?_, Piece.allFit_append.2 ⟨?_, fits_back o rest⟩⟩
    · rw [Piece.join_append, join_pieces, List.nil_append, List.append_assoc]
      exact fits_front hb o os _
    · rw [join_back]
      exact ih (by simp) (closes_back o hr)

end Opener

namespace Parser

open Opener (Surrounds front back pieces)
open Recovery (fragment fragment_cons)

variable {src : Source} {n : Nat} {us ts vs : List Token} {e : Expr} {ds : List Diagnostic}
  {t u v w x : Token} {c : Cursor}

/-! ### Runs -/

/-- Whether the token is a number, a plain name, an opening bracket or a minus sign. -/
def isLead : TokenKind → Bool
  | .lparen | .lbracket | .minus | .number .. | .word _ .name => true
  | _ => false

/-- Such a token starts an operand, and is no keyword. -/
theorem isLead_spec {kind : TokenKind} (h : isLead kind = true) : kind ≠ .rparen ∧
    kind ≠ .rbracket ∧ kind ≠ .comma ∧ kind ≠ .eof ∧ kind.keyword? = none := by
  cases kind with
  | word text wordClass =>
    cases wordClass <;>
      simp_all [isLead, TokenKind.keyword?, TokenKind.wordClass?, WordClass.keyword?]
  | _ => simp_all [isLead, TokenKind.keyword?, TokenKind.wordClass?]

/-- Here a bracket is closed, or the input ends. -/
def Closed (ts : List Token) : Prop := ∀ t ∈ ts.head?, t.kind.closes = true

/-- At a closing sign no operator follows. -/
theorem operator?_of_closed (h : Closed ts) : operator? ts = none := by
  cases ts with
  | nil => rfl
  | cons t ts =>
    have := h t rfl
    cases hk : t.kind <;> simp_all [TokenKind.closes, operator?]

/-- In front of a closing bracket, and with `n` levels left, these tokens are read as `e`, both as
an expression and as an operand. -/
structure Settled (src : Source) (n : Nat) (us : List Token) (e : Expr) (ds : List Diagnostic) :
    Prop where
  leads : ∃ t ts, us = t :: ts ∧ isLead t.kind = true
  reads : ∀ c ts, c.rest = us ++ ts → Closed ts → c.depth + n = maxNesting →
    Reads src (Grammar.levels n).expr c e (c.beyond us) ds ∧
      Reads src (Grammar.levels n).operand c e (c.beyond us) ds

/-- What is read as an operand with signs is settled one level further up. -/
theorem Settled.of_unary (he : src.Ended) (hl : ∃ t ts, us = t :: ts ∧ isLead t.kind = true)
    (hu : ∀ c ts, c.rest = us ++ ts → Closed ts → c.depth + n = maxNesting →
      Reads src (unary (.levels n)) c e (c.beyond us) ds) : Settled src (n + 1) us e ds where
  leads := hl
  reads c ts hr hc hd := by
    have hlt : c.depth < maxNesting := by omega
    have hdown : c.down.depth + n = maxNesting := by
      rw [Cursor.down_depth]
      omega
    have hrun := hu c.down ts hr hc hdown
    refine ⟨.above_expr (advancing_levels n) he hlt hrun ?_, .above_operand hlt hrun⟩
    rw [Cursor.rest_beyond hr]
    exact operator?_of_closed hc

/-- A number is settled on every level but the last. -/
theorem Settled.number (he : src.Ended) {kind : NumberKind} {text : String}
    (ht : t.kind = .number kind text) : Settled src (n + 1) [t] (.number kind text t.span) [] :=
  .of_unary he ⟨t, [], rfl, by rw [ht]; rfl⟩ fun _ _ hr _ _ => .number hr ht

/-- At a parenthesis an operand is a pair or a group. -/
theorem primary_lparen (hr : c.rest = t :: ts) (ht : t.kind = .lparen) {g : Grammar} :
    unary g src c = parenthesised g src c := by
  have hk : (c.rest.headD src.stop).kind = .lparen := by rw [headD_of_rest hr, ht]
  rw [unary_other (by rw [hk]; simp) (by rw [hk]; simp), primary, peek_bind]
  simp only [hk]

/-- At a bracket it is a list. -/
theorem primary_lbracket (hr : c.rest = t :: ts) (ht : t.kind = .lbracket) {g : Grammar} :
    unary g src c = list g src c := by
  have hk : (c.rest.headD src.stop).kind = .lbracket := by rw [headD_of_rest hr, ht]
  rw [unary_other (by rw [hk]; simp) (by rw [hk]; simp), primary, peek_bind]
  simp only [hk]

/-- What follows such tokens in a bracket closes it. -/
theorem closed_cons (hu : u.kind.closes = true) : Closed (u :: ts) := by
  rintro t ⟨⟩
  exact hu

/-- Parentheses around a settled expression take one level. -/
theorem Settled.paren (he : src.Ended) (h : Settled src n us e ds) (ht : t.kind = .lparen)
    (hu : u.kind = .rparen) : Settled src (n + 1) (t :: (us ++ [u]))
      (.group (some e) (Token.across (t :: (us ++ [u])))) ds := by
  refine .of_unary he ⟨t, us ++ [u], rfl, by rw [ht]; rfl⟩ fun c ts hr hc hd => ?_
  have hspan : (Mark.here src c).upTo (c.beyond _) = _ := upTo_across hr (List.cons_ne_nil _ _)
  have hfirst : (c.beyond [t]).rest = us ++ (u :: ts) := Cursor.rest_beyond (by rw [hr]; simp)
  have hafter : ((c.beyond [t]).beyond us).rest = u :: ts := Cursor.rest_beyond hfirst
  obtain ⟨x, xs, hx, hlead⟩ := h.leads
  have hhead : ((c.beyond [t]).rest.headD src.stop).kind ≠ .rparen := by
    rw [hfirst, hx]
    exact (isLead_spec hlead).1
  have hinner := (h.reads (c.beyond [t]) (u :: ts) hfirst (closed_cons (by rw [hu]; rfl)) hd).1
  have hcomma : (((c.beyond [t]).beyond us).rest.headD src.stop).kind ≠ .comma := by
    rw [hafter, List.headD_cons, hu]
    simp
  refine .congr (primary_lparen hr ht) (.mark (.bind (.expect hr ht _) (.bind (.eat_other hhead)
    (.ite_neg (by simp) (hinner.then (.bind (.eat_other hcomma) (.ite_neg (by simp)
      (.bind (.expect hafter hu _) ?_))))))))
  rw [← Cursor.beyond_append, ← Cursor.beyond_append]
  exact .close hspan _

/-- An element where no comma is due. -/
theorem Reads.element {g : Grammar} {read : Elements} {d : Cursor}
    (hk : isLead (c.rest.headD src.stop).kind = true) (hd : read.commaDue = false)
    (hi : Reads src g.expr c e d ds) : Reads src (element g read) c
      (.inl { read with reversed := e :: read.reversed, commaDue := true }) d ds := by
  obtain ⟨-, h1, h2, h3, -⟩ := isLead_spec hk
  refine .peek ?_
  split
  · contradiction
  · contradiction
  · contradiction
  · exact .ite_neg (by simp [hd]) (.mark ((hi.orRecover _).then (.pure _)))

/-- So do brackets. -/
theorem Settled.bracket (he : src.Ended) (h : Settled src n us e ds) (ht : t.kind = .lbracket)
    (hu : u.kind = .rbracket) : Settled src (n + 1) (t :: (us ++ [u]))
      (.list [e] 0 (Token.across (t :: (us ++ [u])))) ds := by
  refine .of_unary he ⟨t, us ++ [u], rfl, by rw [ht]; rfl⟩ fun c ts hr hc hd => ?_
  have hspan : (Mark.here src c).upTo (c.beyond _) = _ := upTo_across hr (List.cons_ne_nil _ _)
  have hfirst : (c.beyond [t]).rest = us ++ (u :: ts) := Cursor.rest_beyond (by rw [hr]; simp)
  have hafter : ((c.beyond [t]).beyond us).rest = u :: ts := Cursor.rest_beyond hfirst
  obtain ⟨x, xs, hx, hlead⟩ := h.leads
  have hhead : (c.beyond [t]).rest.headD src.stop = x := by
    rw [hfirst, hx]
    rfl
  have hinner := (h.reads (c.beyond [t]) (u :: ts) hfirst (closed_cons (by rw [hu]; rfl)) hd).1
  have hone : Reads src (element (.levels n) {}) (c.beyond [t])
      (.inl (.mk [e] 0 true)) ((c.beyond [t]).beyond us) ds := by
    refine .element ?_ rfl hinner
    rw [hhead]
    exact hlead
  have hend : Reads src (element (.levels n) (.mk [e] 0 true)) ((c.beyond [t]).beyond us)
      (.inr (.mk [e] 0 true)) ((c.beyond [t]).beyond us) [] := by
    refine .peek ?_
    rw [headD_of_rest hafter]
    simp only [hu]
    exact .pure _
  have hadv := element_advances (advancing_levels n)
  have hall := Reads.loop_next hadv he hone (.loop_end hadv he hend)
  rw [List.append_nil] at hall
  refine .congr (primary_lbracket hr ht) (.mark (Reads.then (.bind (.expect hr ht _) (hall.then
    (.bind (.expect hafter hu _) (.pure _)))) ?_))
  rw [← Cursor.beyond_append, ← Cursor.beyond_append]
  exact .close hspan _

/-- So does a sign. -/
theorem Settled.minus (he : src.Ended) (h : Settled src n us e ds) (ht : t.kind = .minus) :
    Settled src (n + 1) (t :: us) (.unary .neg e (Token.across (t :: us))) ds := by
  refine .of_unary he ⟨t, us, rfl, by rw [ht]; rfl⟩ fun c ts hr hc hd => ?_
  have hspan : (Mark.here src c).upTo (c.beyond _) = _ := upTo_across hr (List.cons_ne_nil _ _)
  have hfirst : (c.beyond [t]).rest = us ++ ts := Cursor.rest_beyond hr
  have hinner := (h.reads (c.beyond [t]) ts hfirst hc hd).2
  refine .mark (.peek ?_)
  rw [headD_of_rest hr]
  simp only [ht]
  refine .bind (.bump hr) (hinner.then ?_)
  rw [← Cursor.beyond_append]
  exact .close hspan _

/-- So does an object with one member. -/
theorem Settled.object (he : src.Ended) (h : Settled src n us e ds) {type member : String}
    (ht : t.kind = .word type .name) (hu : u.kind = .lparen) (hv : v.kind = .word member .name)
    (hw : w.kind = .eq) (hx : x.kind = .rparen) :
    Settled src (n + 1) (t :: u :: v :: w :: (us ++ [x]))
      (.object ⟨⟨type, t.span⟩, [.member ⟨⟨member, v.span⟩, none, some e, false,
        Token.across (v :: w :: us)⟩], Token.across (t :: u :: v :: w :: (us ++ [x]))⟩) ds := by
  refine .of_unary he ⟨t, _, rfl, by rw [ht]; rfl⟩ fun c ts hr hc hd => ?_
  have hg := advancing_levels n
  have hb := object_steady hg
  have hin : (c.beyond [t, u]).rest = v :: w :: (us ++ (x :: ts)) :=
    Cursor.rest_beyond (by rw [hr]; simp)
  have hvalue : ((c.beyond [t, u]).beyond [v, w]).rest = us ++ (x :: ts) := Cursor.rest_beyond hin
  have hout : ((c.beyond [t, u]).beyond (v :: w :: us)).rest = x :: ts :=
    Cursor.rest_beyond (by rw [hin]; simp)
  have hinner := (h.reads _ (x :: ts) hvalue (closed_cons (by rw [hx]; rfl)) hd).1
  rw [← Cursor.beyond_append (c.beyond [t, u])] at hinner
  have hsigned : Lookahead.Signed (c.beyond [t, u]).rest := by
    rw [hin]
    exact congrArg TokenKind.isWord hw
  have hstarts : Lookahead.startsMember (c.beyond [t, u]).rest 0 = true := by
    rw [hin]
    exact Lookahead.startsMember_eq (by rw [hv]; rfl) hw
  have hmember : Reads src (entry (.levels n) (Parser.object (.levels n))) _ _ _ ds :=
    .entry_member hsigned hstarts (.member hin hv hw hinner)
  have hadv := entryStep_advances hg hb
  have hall := Reads.loop_next hadv he (.nextEntry hin hv [] (hmember.orRecover _))
    (.loop_end hadv he (.lastEntry hout hx _))
  rw [List.append_nil, ← Cursor.beyond_append, ← Cursor.beyond_append] at hall
  exact .unary_object hr ht hu (.object hg he hr ht hu hall)

/-! ### The cut -/

open Piece (tokensFrom join)

/-- Inside of a bracket that stays open, all of such a text is passed over. -/
theorem fragment_inside (os : List Opener) (here : Position) (blank : List Char) (level : Nat)
    (ts : List Token) : fragment (level + 1) (tokensFrom here (pieces blank os) ++ ts) =
      (pieces blank os).length + fragment (level + 1) ts := by
  induction os generalizing here blank level ts with
  | nil => simp [pieces, tokensFrom, Piece.token, fragment_cons, TokenKind.shift, TokenKind.opens,
      TokenKind.closes, Nat.add_comm]
  | cons o os ih =>
    rw [pieces, Piece.tokensFrom_append, Piece.tokensFrom_append]
    cases o <;> simp [front, back, tokensFrom, Piece.token, fragment_cons, TokenKind.shift,
      TokenKind.opens, TokenKind.closes, ih] <;> omega

/-- **The fragment that is cut out is all of such a text**, up to what closes a bracket around. -/
theorem fragment_pieces (os : List Opener) (here : Position) (blank : List Char) {ts : List Token}
    (hc : Closed ts) : fragment 0 (tokensFrom here (pieces blank os) ++ ts) =
      (tokensFrom here (pieces blank os)).length := by
  rw [Piece.length_tokensFrom]
  induction os generalizing here blank ts with
  | nil =>
    have hend : fragment 0 ts = 0 := by
      cases ts with
      | nil => rfl
      | cons t ts => simp [fragment_cons, hc t rfl]
    simp [pieces, tokensFrom, Piece.token, fragment_cons, TokenKind.shift, TokenKind.opens,
      TokenKind.closes, hend]
  | cons o os ih =>
    rw [pieces, Piece.tokensFrom_append, Piece.tokensFrom_append]
    cases o with
    | minus => simp [front, back, tokensFrom, Piece.token, fragment_cons, TokenKind.shift,
        TokenKind.opens, TokenKind.closes, ih _ _ hc]
    | _ => simp [front, back, tokensFrom, Piece.token, fragment_cons, TokenKind.shift,
        TokenKind.opens, TokenKind.closes, fragment_inside]

/-- Without a level left a fragment is cut out, whatever it is. -/
theorem Settled.cut {text : List Char} (hl : ∃ t ts, us = t :: ts ∧ isLead t.kind = true)
    (hf : ∀ ts, Closed ts → fragment 0 (us ++ ts) = us.length)
    (hs : Text.slice? src.text (Token.across us).start (Token.across us).stop = some text) :
    Settled src 0 us (.error ⟨Token.across us, String.ofList text⟩)
      [.ofCause (.tooDeep maxNesting) (Token.across us)] where
  leads := hl
  reads c ts hr hc _ := by
    obtain ⟨t, more, hus, -⟩ := hl
    have hspan : (Mark.here src c).upTo (c.beyond us) = Token.across us :=
      upTo_across hr (by simp [hus])
    have hmoved : (Mark.here src c).count < (c.beyond us).count := by
      rw [Cursor.count_beyond, hus]
      exact Nat.lt_add_of_pos_right (Nat.succ_pos _)
    rw [← hspan] at hs
    have hcut : Reads src tooDeep c ⟨Token.across us, String.ofList text⟩ (c.beyond us)
        [.ofCause (.tooDeep maxNesting) (Token.across us)] := by
      refine .mark (.ahead (.bind (a := ()) (d := c.beyond us) ?_ (.bind (.errorFrom hs) ?_)))
      · rw [hr, hf ts hc]
        exact .skip hr
      · rw [hspan]
        exact .bind (.emit _) (Reads.then (.report _ _)
          (.bind (.movedFrom hmoved) (.ite_pos rfl (.pure _))))
    exact ⟨hcut.map Expr.error, hcut.map Expr.error⟩

/-! ### All openers -/

/-- An opener is read around what is settled one level further down. -/
theorem Settled.wrap (he : src.Ended) (h : Settled src n us e ds) (o : Opener)
    (here there : Position) (blank : List Char) : ∃ e', o.Wraps e e' ∧
      Settled src (n + 1) (tokensFrom here (o.front blank) ++ (us ++ tokensFrom there o.back)) e'
        ds := by
  cases o with
  | paren => exact ⟨_, ⟨_, rfl⟩, h.paren he rfl rfl⟩
  | bracket => exact ⟨_, ⟨_, rfl⟩, h.bracket he rfl rfl⟩
  | object => exact ⟨_, ⟨_, _, _, _, rfl⟩, h.object he rfl rfl rfl rfl rfl⟩
  | minus =>
    rw [back, tokensFrom, List.append_nil]
    exact ⟨_, ⟨_, rfl⟩, h.minus he rfl⟩

/-- What is read inside of the openers that `n` levels are enough for: the number if these are all
of them, and a fragment that is reported otherwise. -/
def Innermost (n : Nat) (os : List Opener) (e : Expr) (ds : List Diagnostic) : Prop :=
  if os.length < n then (∃ s, e = .number .decimal "1" s) ∧ ds = []
  else ∃ s, e = .error ⟨s, String.ofList (Opener.around (os.drop n))⟩ ∧
    ds = [.ofCause (.tooDeep maxNesting) s]

/-- The text starts with a token that leads an operand. -/
theorem leads_pieces (here : Position) (blank : List Char) (os : List Opener) :
    ∃ t ts, tokensFrom here (pieces blank os) = t :: ts ∧ isLead t.kind = true := by
  have hcases : ∃ p ps, pieces blank os = p :: ps ∧ isLead p.kind = true := by
    cases os with
    | nil => exact ⟨_, _, rfl, rfl⟩
    | cons o os => cases o <;> exact ⟨_, _, rfl, rfl⟩
  obtain ⟨p, ps, hp, hl⟩ := hcases
  exact ⟨_, _, by rw [hp, tokensFrom], hl⟩

/-- **Openers are read around what is inside of them**, as many as there are levels. -/
theorem settled_pieces (he : src.Ended) (n : Nat) (os : List Opener) (here : Position)
    {blank before after : List Char}
    (htext : src.text = before ++ (join (pieces blank os) ++ after))
    (hh : here.offset = Text.byteSize before) : ∃ inner e ds, Innermost n os inner ds ∧
      Surrounds (os.take n) inner e ∧ Settled src n (tokensFrom here (pieces blank os)) e ds := by
  induction n generalizing os here blank before after with
  | zero =>
    have hne : pieces blank os ≠ [] := by
      obtain ⟨t, ts, h, -⟩ := leads_pieces here blank os
      rintro hp
      rw [hp] at h
      cases h
    have hs := Piece.slice?_across hh hne after
    rw [← htext, Opener.tight_pieces] at hs
    exact ⟨_, _, _, ⟨_, rfl, rfl⟩, rfl, .cut (leads_pieces here blank os)
      (fun ts hc => fragment_pieces os here blank hc) hs⟩
  | succ n ih =>
    cases os with
    | nil => exact ⟨_, _, _, ⟨⟨_, rfl⟩, rfl⟩, rfl, .number he rfl⟩
    | cons o os =>
      have htext' : src.text = (before ++ join (o.front blank)) ++
          (join (pieces [] os) ++ (join o.back ++ after)) := by
        rw [htext, pieces]
        simp only [Piece.join_append, List.append_assoc]
      have hh' : (here.after (join (o.front blank))).offset =
          Text.byteSize (before ++ join (o.front blank)) := by
        rw [Position.offset_after, hh, Text.byteSize_append]
      -- The outermost opener wraps what the others settle at one level less.
      obtain ⟨inner, e, ds, hcore, hnests, hsettled⟩ := ih os _ htext' hh'
      obtain ⟨e', hwraps, hall⟩ := hsettled.wrap he o here
        ((here.after (join (o.front blank))).after (join (pieces [] os))) blank
      refine ⟨inner, e', ds, ?_, ⟨e, hnests, hwraps⟩, ?_⟩
      · simpa [Innermost] using hcore
      · rwa [pieces, Piece.tokensFrom_append, Piece.tokensFrom_append]

/-- A declaration of a value that is settled. -/
theorem Settled.parse_eq {source text : String} {stop : Token} {wordClass : WordClass}
    (hs : TokenStream.ofText source = ⟨t :: u :: us, stop, []⟩) (he : stop.kind = .eof)
    (ht : t.kind = .word text wordClass) (hu : u.kind.keyword? = some .is)
    (h : Settled ⟨source.toList, stop⟩ maxNesting us e ds) :
    parse source = ⟨Document.ofItems source
      [.assignment ⟨⟨text, t.span⟩, e, Token.across (t :: u :: us)⟩], Diagnostic.sort ds⟩ := by
  have hr : (Cursor.start (t :: u :: us)).rest = t :: u :: (us ++ []) := by
    rw [List.append_nil]
    rfl
  obtain ⟨x, xs, hx, hlead⟩ := h.leads
  have hstarts : Lookahead.startsAssignment (Cursor.start (t :: u :: us)).rest 0 = true := by
    refine Lookahead.startsAssignment_cons (by rw [ht]; rfl) hu ?_
    rw [hx]
    rintro v ⟨⟩
    simp [(isLead_spec hlead).2.2.2.2]
  have hvalue := (h.reads ((Cursor.start (t :: u :: us)).beyond [t, u]) [] (Cursor.rest_beyond hr)
    (fun _ h => by cases h) rfl).1
  rw [← Cursor.beyond_append] at hvalue
  have hitem := Reads.itemOrError (.item_assignment hstarts (.assignment hr ht hu hvalue))
  exact parse_of_item hs he (List.cons_ne_nil _ _) hitem (Cursor.rest_beyond hr)

end Parser

namespace Opener

/-- **The nesting limit is exact and costs one problem.**  Fewer openers than `maxNesting` are all
read, around the number 1, and nothing is wrong.  Of more, the first `maxNesting` are read around
one fragment that holds the rest, and its depth is all that is reported. -/
theorem parse_around (os : List Opener) : ∃ s₁ s₂ value inner,
    (parse ("A is " ++ String.ofList (around os))).document.items =
      [.assignment ⟨⟨"A", s₁⟩, value, s₂⟩] ∧
    Surrounds (os.take Parser.maxNesting) inner value ∧
    if os.length < Parser.maxNesting then
      (∃ s, inner = .number .decimal "1" s) ∧
        (parse ("A is " ++ String.ofList (around os))).diagnostics = []
    else
      ∃ s, inner = .error ⟨s, String.ofList (around (os.drop Parser.maxNesting))⟩ ∧
        (parse ("A is " ++ String.ofList (around os))).diagnostics =
          [⟨s, "nesting deeper than 32 levels", .unrecoverableFragment⟩] := by
  -- The declared name and its `is`, in front of the openers.
  let ps : List Piece :=
    [⟨[], ['A'], .word "A" .name⟩, ⟨[' '], ['i', 's'], .word "is" (.keyword .is)⟩]
  have hb : ∀ c ∈ [' '], Text.isBlank c = true := List.forall_mem_singleton.2 rfl
  have htext : ("A is " ++ String.ofList (around os)).toList =
      Piece.join (ps ++ pieces [' '] os) ++ [] := by
    rw [Piece.join_append, join_pieces, String.toList_append, String.toList_ofList]
    simp [ps, Piece.written]
  have hfit : Piece.AllFit (ps ++ pieces [' '] os) [] := by
    refine Piece.allFit_append.2 ⟨⟨Piece.fits_word (by simp) ⟨rfl, by simp⟩
      (by rintro d ⟨⟩; decide),
      Piece.fits_word hb ⟨rfl, List.forall_mem_singleton.2 rfl⟩ ?_, trivial⟩,
      allFit_pieces hb (by rintro d ⟨⟩)⟩
    rw [join_pieces]
    rintro d ⟨⟩
    decide
  obtain ⟨stop, hstop, hstream⟩ := TokenStream.ofText_of_allFit htext hfit (by simp)
    (by rw [htext]; simp [ps, Piece.written])
  have he : Source.Ended ⟨("A is " ++ String.ofList (around os)).toList, stop⟩ := hstop
  have hsrc : (⟨("A is " ++ String.ofList (around os)).toList, stop⟩ : Source).text =
      Piece.join ps ++ (Piece.join (pieces [' '] os) ++ []) := by
    rw [htext, Piece.join_append, List.append_assoc]
  -- What the value reads as at full budget; the declaration around it adds no problem.
  obtain ⟨inner, value, ds, hinner, hnests, hvalue⟩ := Parser.settled_pieces he
    Parser.maxNesting os (Position.origin.after (Piece.join ps)) hsrc (Position.offset_after _ _)
  rw [Piece.tokensFrom_append] at hstream
  rw [hvalue.parse_eq hstream hstop rfl rfl]
  refine ⟨_, _, value, inner, rfl, hnests, ?_⟩
  unfold Parser.Innermost at hinner
  split at hinner
  · rw [if_pos ‹_›]
    exact ⟨hinner.1, by rw [hinner.2]; exact List.mergeSort_nil⟩
  · obtain ⟨s, rfl, rfl⟩ := hinner
    rw [if_neg ‹_›]
    exact ⟨s, rfl, List.mergeSort_singleton _⟩

end Opener
end Ndf
