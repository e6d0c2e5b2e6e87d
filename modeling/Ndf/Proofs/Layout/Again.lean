/-
# Reading a tree and reading it again

A source is read once, without problems, and then the canonical text of its tree.  Of the first run
`Finds` says what its value and the tokens behind it are like; of the second one `Takes` says that
it returns a value, with what property.  Both are about tokens and the number of open levels and are
composed along the definition of a parser, one lemma for each combinator.

`Copies` ties the two together: what the first run found reads the same again, wherever its pieces
stand.  `follow` says in front of what, since words and brackets can go on in what follows.
-/

import Ndf.Proofs.Commas.Smooth
import Ndf.Proofs.Layout.Resemblance
import Ndf.Proofs.Layout.Ends
import Ndf.Proofs.Parser.Reads
import Ndf.Proofs.Token.Written
import Ndf.Proofs.Tree.Relabel

namespace Ndf

/-- Trees are compared without places and without stray commas. -/
def Relabel.tidy : Relabel := ⟨fun _ => .zero, fun _ => 0⟩

@[simp] theorem Relabel.span_tidy (s : Span) : tidy.span s = .zero := rfl

@[simp] theorem Relabel.strays_tidy (n : Nat) : tidy.strays n = 0 := rfl

@[simp] theorem Relabel.name_tidy (n : Name) : tidy.name n = ⟨n.text, .zero⟩ := rfl

/-- The class of every word is that of its text. -/
def Scene.Spelled (S : Scene) : Prop :=
  ∀ t ∈ S.tokens, ∀ text c, t.kind = .word text c → c = Word.classify text

/-- The class of a word that is left is told by its text. -/
theorem Scene.Left.spelled {S : Scene} {t : Token} {ts : List Token} (h : S.Left (t :: ts))
    (hS : S.Spelled) {text : String} {c : WordClass} (hk : t.kind = .word text c) :
    c = Word.classify text := by
  rcases h with ⟨us, h⟩ | ⟨us, s, rest, -, h⟩
  · exact hS t (by simp [h]) text c hk
  · obtain ⟨rfl, -⟩ := List.cons_eq_cons.1 h
    cases hk

/-- Some tokens later the rest is left as well. -/
theorem Scene.Left.behind {S : Scene} {us ts : List Token} (h : S.Left (us ++ ts)) : S.Left ts := by
  induction us with
  | nil => exact h
  | cons u us ih => exact ih h.tail

namespace Parser

open Piece (tokensFrom)

variable {α β σ : Type}

/-! ### The first run -/

section

variable {S : Scene} {n : Nat} {p q : Parser α} {f : α → Parser β} {t : Token} {ts us : List Token}
  {P Q : α → List Token → Prop} {R : β → List Token → Prop} {kind : TokenKind}

/-- From these tokens on, `n` levels being open, a run without problems ends with a value and in
front of tokens as said. -/
def Finds (S : Scene) (n : Nat) (p : Parser α) (ts : List Token)
    (Q : α → List Token → Prop) : Prop :=
  ∀ c : Cursor, c.rest = ts → c.depth = n → Smooth S c (fun a d => d.depth = n ∧ Q a d.rest) p

namespace Finds

/-- A weaker property holds as well. -/
theorem mono (hp : Finds S n p ts P) (h : ∀ a us, P a us → Q a us) : Finds S n p ts Q :=
  fun c hr hd => (hp c hr hd).mono fun a _ ha => ⟨ha.1, h a _ ha.2⟩

/-- In a sequence the second parser may rely on what the first one found. -/
theorem bind (hp : Finds S n p ts P) (hf : ∀ a us, P a us → Finds S n (f a) us R) :
    Finds S n (p >>= f) ts R :=
  fun c hr hd => (hp c hr hd).bind fun a d ha => hf a _ ha.2 d rfl ha.1

/-- Returning a value finds that value. -/
theorem pure {a : α} (h : Q a ts) : Finds S n (pure a) ts Q :=
  fun c hr hd => .pure ⟨hd, by rwa [hr]⟩

/-- Nothing is found between a value and what is done with it. -/
theorem pure_bind {a : α} (h : Finds S n (f a) ts R) : Finds S n (Pure.pure a >>= f) ts R :=
  .bind (P := fun b us => b = a ∧ us = ts) (.pure ⟨rfl, rfl⟩) fun _ _ ⟨hb, hu⟩ => hb ▸ hu ▸ h

/-- A function of the value finds its image. -/
theorem map {h : α → β} (hp : Finds S n p ts P) (hh : ∀ a us, P a us → R (h a) us) :
    Finds S n (h <$> p) ts R := hp.bind fun a us ha => .pure (hh a us ha)

/-- Of two branches only the one taken counts. -/
theorem ite {C : Prop} [Decidable C] (hp : C → Finds S n p ts Q) (hq : ¬ C → Finds S n q ts Q) :
    Finds S n (if C then p else q) ts Q := by
  intro c hr hd
  refine .ite (fun h => hp h c hr hd) fun h => ?_
  exact hq h c hr hd

/-- Whoever gives up finds a problem, which a clean run does not. -/
theorem unexpected (due : String) : Finds S n (unexpected due) ts Q :=
  fun _ _ _ => .unexpected due

/-- Whoever gives up returns no value. -/
theorem none (h : ∀ c, (p S.source c).value = none) : Finds S n p ts Q := fun c _ _ => .none (h c)

/-- So does whoever reports one. -/
theorem loud (h : Loud p) : Finds S n p ts Q := fun _ _ _ => .loud h

/-- So does a sequence that starts with a report. -/
theorem report {cause : Diagnostic.Cause} {s : Span} {f : Unit → Parser β} :
    Finds S n (report cause s >>= f) ts R := fun _ _ _ => .report

/-- A clean run does not recover. -/
theorem orRecover (hS : S.Fair) (hs : Sound p) (hp : Finds S n p ts Q) :
    Finds S n (orRecover p q) ts Q := fun c hr hd => .orRecover hS hs (hp c hr hd)

/-- A level deeper, which is allowed. -/
theorem nested {deep : Parser α} (hs : Sound p) (hd : Loud deep)
    (hp : n < maxNesting → Finds S (n + 1) p ts Q) : Finds S n (nested deep p) ts Q := by
  intro c hr hdepth
  rcases Nat.lt_or_ge n maxNesting with h | h
  · refine .nested hs hd ((hp h c.down hr (congrArg (· + 1) hdepth)).mono fun a d ha => ⟨?_, ha.2⟩)
    rw [Cursor.up, ha.1, Nat.add_sub_cancel]
  · exact .congr (nested_of_le (hdepth ▸ h)) (.loud hd)

/-- The tokens are some that can be left. -/
theorem here (h : S.Left ts → Finds S n p ts Q) : Finds S n p ts Q := fun c hr hd hc =>
  h (hr ▸ hc) c hr hd hc

/-- Looking at the next token finds that token. -/
theorem peek {f : Token → Parser β} (h : Finds S n (f (ts.headD S.source.stop)) ts R) :
    Finds S n (peek >>= f) ts R := fun c hr hd => .peek (by rw [hr]; exact h c hr hd)

/-- Looking further finds the tokens ahead. -/
theorem ahead {f : List Token → Parser β} (h : Finds S n (f ts) ts R) :
    Finds S n (ahead >>= f) ts R := fun c hr hd => .ahead (by rw [hr]; exact h c hr hd)

/-- A mark may be any mark. -/
theorem mark {f : Mark → Parser β} (h : ∀ m, Finds S n (f m) ts R) :
    Finds S n (mark >>= f) ts R := fun c hr hd => .mark (h _ c hr hd)

/-- A span may be any span: trees are compared without them. -/
theorem spanFrom {m : Mark} {f : Span → Parser β} (h : ∀ s, Finds S n (f s) ts R) :
    Finds S n (spanFrom m >>= f) ts R := fun c hr hd => .spanFrom (h _ c hr hd)

/-- What stands still finds what it returns. -/
theorem still (hs : Still p) (h : ∀ a, Finds S n (f a) ts R) : Finds S n (p >>= f) ts R :=
  fun c hr hd => (Smooth.still hs).bind fun a _ he => he ▸ h a c hr hd

/-- Of what is read nothing has to be known. -/
theorem steady (hs : Steady p) : Finds S n p ts fun _ _ => True := by
  intro c _ hd hc a ha _
  obtain ⟨us, hu⟩ := hs.lands S.ended c (ha ▸ Option.some_ne_none a)
  exact ⟨(hu.rest ▸ hc).behind, hu.depth.trans hd, trivial⟩

/-- What a loop relates its state and the tokens ahead to, read backwards: each round that goes on
passes it on from where it ends to where it starts. -/
theorem loop {step : σ → Parser (σ ⊕ β)} (E : σ → List Token → β → List Token → Prop)
    (h : ∀ s ts, Finds S n (step s) ts fun r us =>
      r.elim (fun s' => ∀ b vs, E s' us b vs → E s ts b vs) fun b => E s ts b us) (s : σ) :
    Finds S n (loop step s) ts (E s ts) := by
  intro c hr hd
  refine .loop (I := fun s' e => e.depth = n ∧ ∀ b vs, E s' e.rest b vs → E s ts b vs)
    (fun s' e he => (h s' e.rest e rfl he.1).mono fun r e' hr' => ?_)
    ⟨hd, fun _ _ => by rw [hr]; exact id⟩
  cases r with
  | inl s'' => exact ⟨hr'.1, fun b vs hb => he.2 b vs (hr'.2 b vs hb)⟩
  | inr b => exact ⟨hr'.1, he.2 b _ hr'.2⟩

/-! ### Single tokens -/

/-- Reading a token leaves those behind it. -/
theorem bump {f : Unit → Parser β} (h : Finds S n (f ()) ts R) :
    Finds S n (bump >>= f) (t :: ts) R := fun _ hr hd =>
  Smooth.bind (.bump_token hr) fun _ d he => by
    subst he
    exact h _ rfl hd

/-- A token that is not the end stands in front of others. -/
theorem exists_cons (hk : (ts.headD S.source.stop).kind = kind) (h : kind ≠ .eof) :
    ∃ t us, ts = t :: us ∧ t.kind = kind := by
  cases ts with
  | nil => exact absurd (hk.symm.trans S.ended) h
  | cons t us => exact ⟨t, us, rfl, hk⟩

/-- Reading half of a `>=` leaves the other half. -/
theorem bumpHalf {f : Unit → Parser β} (hk : t.kind = .gtEq)
    (h : Finds S n (f ()) (t.secondHalf :: ts) R) : Finds S n (bumpHalf >>= f) (t :: ts) R := by
  intro c hr hd
  have half : Smooth S c (fun _ d => d.rest = t.secondHalf :: ts ∧ d.depth = n)
      Parser.bumpHalf := by
    intro hc _ _ _
    simp only [Parser.bumpHalf, hr]
    exact ⟨(hr ▸ hc).half hk, trivial, hd⟩
  exact half.bind fun _ d he => h d he.1 he.2

/-- A sign that is due is found. -/
theorem expect {due : String} {f : Unit → Parser β} (hk : kind ≠ .eof)
    (h : ∀ t us, ts = t :: us → t.kind = kind → Finds S n (f ()) us R) :
    Finds S n (expect kind due >>= f) ts R := fun _ hr hd =>
  Smooth.bind (.expect hk due) fun _ d ⟨t, us, hu, ht, he⟩ => by
    subst he
    exact h t us (hr ▸ hu) ht _ rfl hd

/-- So is a keyword, in any letter case. -/
theorem expectKeyword {keyword : Keyword} {f : Unit → Parser β}
    (h : ∀ t us, ts = t :: us → t.kind.wordClass? = some (.keyword keyword) →
      Finds S n (f ()) us R) : Finds S n (expectKeyword keyword >>= f) ts R := by
  intro c hr hd
  refine Smooth.bind (P := fun _ d => d.depth = n ∧ ∃ t us, ts = t :: us ∧
    t.kind.wordClass? = some (.keyword keyword) ∧ d.rest = us) ?_ fun _ d ⟨hd, t, us, hu, ht, he⟩ =>
      h t us hu ht d he hd
  refine .congr (expectKeyword_run keyword) (.ite (fun hk => ?_) fun _ => .unexpected _)
  cases hts : ts with
  | nil =>
    rw [hr, hts, List.headD_nil, show S.source.stop.kind = .eof from S.ended] at hk
    cases hk
  | cons t us =>
    rw [hr, hts, List.headD_cons, beq_iff_eq, TokenKind.keyword?, Option.bind_eq_some_iff] at hk
    obtain ⟨k, hword, hk⟩ := hk
    cases k <;> cases hk
    exact (Smooth.bump_token (hr.trans hts)).mono fun _ d he => by
      subst he
      exact ⟨hd, t, us, rfl, hword, rfl⟩

/-- A sign that is tried for is found, or another token is next. -/
theorem eat {f : Bool → Parser β} (hk : kind ≠ .eof)
    (yes : ∀ t us, ts = t :: us → t.kind = kind → Finds S n (f true) us R)
    (no : (ts.headD S.source.stop).kind ≠ kind → Finds S n (f false) ts R) :
    Finds S n (Parser.eat kind >>= f) ts R := by
  intro c hr hd
  refine Smooth.bind (P := fun b d => d.depth = n ∧
    if b then ∃ t us, ts = t :: us ∧ t.kind = kind ∧ d.rest = us
    else d.rest = ts ∧ (ts.headD S.source.stop).kind ≠ kind) ?_ fun b d ⟨hd, hb⟩ => ?_
  · refine .congr (eat_run kind) (.ite (fun h => ?_) fun h => .pure ⟨hd, hr, by simpa [hr] using h⟩)
    obtain ⟨t, us, hts, ht⟩ := exists_cons (eq_of_beq h) hk
    exact .bind (.bump_token hts) fun _ d he => .pure (by
      subst he
      exact ⟨hd, t, us, hr ▸ hts, ht, rfl⟩)
  · cases b with
    | true =>
      obtain ⟨t, us, hts, ht, hrest⟩ := hb
      exact yes t us hts ht d hrest hd
    | false => exact no hb.2 d hb.1 hd

/-- A name is the next token, and its class is that of its text. -/
theorem name {due : String} {f : Name → Parser β} (hS : S.Spelled)
    (h : ∀ text t us s, ts = t :: us → t.kind = .word text (Word.classify text) →
      Finds S n (f ⟨text, s⟩) us R) : Finds S n (name due >>= f) ts R := by
  intro c hr hd
  refine Smooth.bind (P := fun a d => d.depth = n ∧ ∃ text t us s, ts = t :: us ∧
    t.kind = .word text (Word.classify text) ∧ a = ⟨text, s⟩ ∧ d.rest = us) ?_
      fun _ d ⟨hd, text, t, us, s, hts, ht, ha, he⟩ => by
        subst ha
        exact h text t us s hts ht d he hd
  refine .here fun hleft => ?_
  cases hk : (c.rest.headD S.source.stop).kind with
  | word text wordClass =>
    obtain ⟨t, us, hts, ht⟩ := exists_cons hk (by simp)
    obtain rfl := (hts ▸ hleft).spelled hS ht
    refine .congr (name_run_word hk due) (Smooth.bind (.bump_token hts) fun _ d he => .pure ?_)
    subst he
    exact ⟨hd, text, t, us, _, hr ▸ hts, ht, rfl, rfl⟩
  | _ => exact .congr (name_run_other (by rw [hk]; rfl) due) (.unexpected due)

end Finds
end

/-! ### The second run -/

section

variable {src : Source} {n : Nat} {p q : Parser α} {f : α → Parser β} {t : Token}
  {ts us : List Token} {P Q : α → List Token → Prop} {R : β → List Token → Prop}
  {here : Position} {piece : Piece} {ps qs : List Piece} {blank : List Char} {text : String}

/-- From these tokens on, `n` levels being open, the run ends without problems, with a value and in
front of tokens as said. -/
def Takes (src : Source) (n : Nat) (p : Parser α) (ts : List Token)
    (Q : α → List Token → Prop) : Prop :=
  ∀ c : Cursor, c.rest = ts → c.depth = n → ∃ a d, Reads src p c a d [] ∧ d.depth = n ∧ Q a d.rest

namespace Takes

/-- A weaker property holds as well. -/
theorem mono (hp : Takes src n p ts P) (h : ∀ a us, P a us → Q a us) : Takes src n p ts Q :=
  fun c hr hd => by
    obtain ⟨a, d, hread, hdepth, ha⟩ := hp c hr hd
    exact ⟨a, d, hread, hdepth, h a _ ha⟩

/-- Two parsers with the same runs take the same. -/
theorem congr (h : ∀ c : Cursor, c.rest = ts → p src c = q src c) (hq : Takes src n q ts Q) :
    Takes src n p ts Q := fun c hr hd => by
  obtain ⟨a, d, hread, hdepth, ha⟩ := hq c hr hd
  exact ⟨a, d, .congr (h c hr) hread, hdepth, ha⟩

/-- In a sequence the second parser starts where the first one stopped. -/
theorem bind (hp : Takes src n p ts P) (hf : ∀ a us, P a us → Takes src n (f a) us R) :
    Takes src n (p >>= f) ts R := fun c hr hd => by
  obtain ⟨a, d, hread, hdepth, ha⟩ := hp c hr hd
  obtain ⟨b, e, hread', hdepth', hb⟩ := hf a d.rest ha d rfl hdepth
  exact ⟨b, e, hread.bind hread', hdepth', hb⟩

/-- Returning a value takes nothing. -/
theorem pure {a : α} (h : Q a ts) : Takes src n (pure a) ts Q := fun c hr hd =>
  ⟨a, c, .pure a, hd, by rwa [hr]⟩

/-- Nothing is taken between a value and what is done with it. -/
theorem pure_bind {a : α} (h : Takes src n (f a) ts R) : Takes src n (Pure.pure a >>= f) ts R :=
  .bind (P := fun b us => b = a ∧ us = ts) (.pure ⟨rfl, rfl⟩) fun _ _ ⟨hb, hu⟩ => hb ▸ hu ▸ h

/-- A function of the value takes nothing more. -/
theorem map {h : α → β} (hp : Takes src n p ts P) (hh : ∀ a us, P a us → R (h a) us) :
    Takes src n (h <$> p) ts R := hp.bind fun a us ha => .pure (hh a us ha)

/-- Where the test holds, the first branch is taken. -/
theorem ite_pos {C : Prop} [Decidable C] (h : C) (hp : Takes src n p ts Q) :
    Takes src n (if C then p else q) ts Q := by
  rwa [if_pos h]

/-- Where it fails, the second. -/
theorem ite_neg {C : Prop} [Decidable C] (h : ¬ C) (hq : Takes src n q ts Q) :
    Takes src n (if C then p else q) ts Q := by
  rwa [if_neg h]

/-- What takes its input does not recover. -/
theorem orRecover (hp : Takes src n p ts Q) : Takes src n (orRecover p q) ts Q := fun c hr hd => by
  obtain ⟨a, d, hread, hdepth, ha⟩ := hp c hr hd
  exact ⟨a, d, hread.orRecover q, hdepth, ha⟩

/-- A level deeper the same is taken, if a level is left. -/
theorem nested {deep : Parser α} (hn : n < maxNesting) (hp : Takes src (n + 1) p ts Q) :
    Takes src n (nested deep p) ts Q := fun c hr hd => by
  obtain ⟨a, d, hread, hdepth, ha⟩ := hp c.down hr (congrArg (· + 1) hd)
  refine ⟨a, d.up, hread.deeper (hd ▸ hn) (by omega), ?_, ha⟩
  rw [Cursor.up, hdepth, Nat.add_sub_cancel]

/-- Looking ahead takes nothing. -/
theorem ahead {f : List Token → Parser β} (h : Takes src n (f ts) ts R) :
    Takes src n (ahead >>= f) ts R := .congr (q := f ts) (fun c hr => by rw [← hr]; rfl) h

/-- Setting a mark takes nothing. -/
theorem mark {f : Mark → Parser β} (h : ∀ m, Takes src n (f m) ts R) :
    Takes src n (mark >>= f) ts R := fun c hr hd => by
  obtain ⟨b, d, hread, hb⟩ := h (.here src c) c hr hd
  exact ⟨b, d, .mark hread, hb⟩

/-- Taking a span takes nothing. -/
theorem spanFrom {m : Mark} {f : Span → Parser β} (h : ∀ s, Takes src n (f s) ts R) :
    Takes src n (spanFrom m >>= f) ts R := fun c hr hd => by
  obtain ⟨b, d, hread, hb⟩ := h (m.upTo c) c hr hd
  exact ⟨b, d, .congr (q := f (m.upTo c)) rfl hread, hb⟩

/-- Emitting an event takes nothing. -/
theorem emit {event : ParseEvent} {f : Unit → Parser β} (h : Takes src n (f ()) ts R) :
    Takes src n (emit event >>= f) ts R := fun c hr hd => by
  obtain ⟨b, d, hread, hb⟩ := h c hr hd
  exact ⟨b, d, .bind (.emit event) hread, hb⟩

/-- Looking at the next token takes nothing. -/
theorem peek {f : Token → Parser β} (h : Takes src n (f (ts.headD src.stop)) ts R) :
    Takes src n (peek >>= f) ts R :=
  .congr (q := f (ts.headD src.stop)) (fun c hr => by rw [← hr]; rfl) h

/-- The kind of the next token is seen. -/
theorem peek_kind {f : Token → Parser β} {kind : TokenKind}
    (hk : (ts.headD src.stop).kind = kind)
    (h : ∀ t : Token, t.kind = kind → Takes src n (f t) ts R) :
    Takes src n (Parser.peek >>= f) ts R := .peek (h _ hk)

/-- The kind of the next piece is seen. -/
theorem peek_piece {f : Token → Parser β} (h : ∀ t : Token, t.kind = piece.kind →
      Takes src n (f t) (tokensFrom here (piece :: ps) ++ us) R) :
    Takes src n (Parser.peek >>= f) (tokensFrom here (piece :: ps) ++ us) R :=
  .peek (h _ rfl)

/-! ### Loops -/

/-- A loop whose next round goes on. -/
theorem loop_next {step : σ → Parser (σ ⊕ β)} {s : σ} (ha : Advances step) (he : src.Ended)
    (h : Takes src n (step s) ts fun r us =>
      ∃ s', r = .inl s' ∧ Takes src n (loop step s') us R) : Takes src n (loop step s) ts R :=
  fun c hr hd => by
    obtain ⟨_, d, hread, hdepth, s', rfl, hloop⟩ := h c hr hd
    obtain ⟨b, e, hread', hdepth', hb⟩ := hloop d rfl hdepth
    exact ⟨b, e, .loop_next ha he hread hread', hdepth', hb⟩

/-- A loop whose next round is the last one. -/
theorem loop_end {step : σ → Parser (σ ⊕ β)} {s : σ} (ha : Advances step) (he : src.Ended)
    (h : Takes src n (step s) ts fun r us => ∃ b, r = .inr b ∧ R b us) :
    Takes src n (loop step s) ts R :=
  fun c hr hd => by
    obtain ⟨_, d, hread, hdepth, b, rfl, hb⟩ := h c hr hd
    exact ⟨b, d, .loop_end ha he hread, hdepth, hb⟩

/-! ### Single tokens -/

/-- What reads the next token goes on behind it. -/
theorem token {a : α} (hp : ∀ c : Cursor, c.rest = piece.token here :: (tokensFrom
      (here.after piece.written) ps ++ us) → Reads src p c a (c.beyond [piece.token here]) [])
    (h : ∀ here, Takes src n (f a) (tokensFrom here ps ++ us) R) :
    Takes src n (p >>= f) (tokensFrom here (piece :: ps) ++ us) R := fun c hr hd => by
  obtain ⟨b, d, hread, hb⟩ := h _ _ (Cursor.rest_beyond (show c.rest = [_] ++ _ from hr)) hd
  exact ⟨b, d, .bind (hp c hr) hread, hb⟩

/-- Reading a token takes the next piece. -/
theorem bump {f : Unit → Parser β} (h : ∀ here, Takes src n (f ()) (tokensFrom here ps ++ us) R) :
    Takes src n (bump >>= f) (tokensFrom here (piece :: ps) ++ us) R :=
  .token (fun _ hr => .bump hr) h

/-- A sign that is due takes the piece of that sign. -/
theorem expect {kind : TokenKind} {due : String} {f : Unit → Parser β} (hk : piece.kind = kind)
    (h : ∀ here, Takes src n (f ()) (tokensFrom here ps ++ us) R) :
    Takes src n (expect kind due >>= f) (tokensFrom here (piece :: ps) ++ us) R :=
  .token (fun _ hr => .expect hr hk due) h

/-- A keyword takes the piece of that keyword. -/
theorem expectKeyword {keyword : Keyword} {f : Unit → Parser β}
    (hk : piece.kind.keyword? = some keyword)
    (h : ∀ here, Takes src n (f ()) (tokensFrom here ps ++ us) R) :
    Takes src n (expectKeyword keyword >>= f) (tokensFrom here (piece :: ps) ++ us) R :=
  .token (fun _ hr => .expectKeyword hr hk) h

/-- A sign that is tried for takes its piece. -/
theorem eat {kind : TokenKind} {f : Bool → Parser β} (hk : piece.kind = kind)
    (h : ∀ here, Takes src n (f true) (tokensFrom here ps ++ us) R) :
    Takes src n (Parser.eat kind >>= f) (tokensFrom here (piece :: ps) ++ us) R := by
  subst hk
  exact .token (fun _ hr => .eat hr) h

/-- Any other piece is left. -/
theorem eat_other {kind : TokenKind} {f : Bool → Parser β}
    (hk : (ts.headD src.stop).kind ≠ kind) (h : Takes src n (f false) ts R) :
    Takes src n (Parser.eat kind >>= f) ts R := fun c hr hd => by
  obtain ⟨b, d, hread, hb⟩ := h c hr hd
  exact ⟨b, d, .bind (.eat_other (hr ▸ hk)) hread, hb⟩

/-- A name takes a word, with its text. -/
theorem name {due : String} {f : Name → Parser β}
    (h : ∀ here s, Takes src n (f ⟨text, s⟩) (tokensFrom here ps ++ us) R) :
    Takes src n (name due >>= f) (tokensFrom here (.word blank text :: ps) ++ us) R :=
  .token (fun _ hr => .name hr rfl due) fun _ => h _ _

end Takes
end

end Parser

namespace Lookahead

open Piece (tokensFrom)

variable {cut : Bool} {t : Token} {ts us : List Token} {p : Piece} {ps : List Piece}
  {k : WordClass}

/-- These tokens look like the tokens of the pieces with others behind them. -/
def Mirrors (cut : Bool) (ts : List Token) (ps : List Piece) (us : List Token) : Prop :=
  ∀ here, Resembles cut ts (tokensFrom here ps ++ us)

namespace Mirrors

/-- Where no piece is written, what stood ahead and what stands ahead are alike. -/
theorem nil (h : Resembles cut ts us) : Mirrors cut ts [] us := fun _ => h

/-- A word stands for a word. -/
theorem word (ht : t.kind.wordClass? = some k) (hp : p.kind.wordClass? = some k)
    (h : Mirrors cut ts ps us) : Mirrors cut (t :: ts) (p :: ps) us := fun _ => .word ht hp (h _)

/-- A name is a word of the same class. -/
theorem name {blank : List Char} {text : String} (ht : t.kind = .word text (Word.classify text))
    (h : Mirrors cut ts ps us) : Mirrors cut (t :: ts) (.word blank text :: ps) us :=
  .word (k := Word.classify text) (by rw [ht]; rfl) rfl h

/-- A sign stands for itself, if it is no colon. -/
theorem sign (hk : t.kind = p.kind) (hw : p.kind.isWord = false) (hc : p.kind ≠ .colon) :
    Mirrors cut (t :: ts) (p :: ps) us := fun _ =>
  .sign hk (by rwa [hk]) fun h => absurd (hk.symm.trans h) hc

/-- Behind a colon no payload comes, as before. -/
theorem colon (ht : t.kind = .colon) (hp : p.kind = .colon)
    (h : ∀ here, isPayload ts 0 = isPayload (tokensFrom here ps ++ us) 0) :
    Mirrors cut (t :: ts) (p :: ps) us := fun _ =>
  .sign (ht.trans hp.symm) (by rw [ht]; rfl) fun _ => h _

end Mirrors
end Lookahead

namespace Layout

/-- How the values of a parser are written, and what of that is compared. -/
structure Script (α : Type) where
  pieces : Margin → List Char → α → List Piece
  tidy : α → α
  parts : α → List Part
  /-- What followed a value, and what can follow its pieces. -/
  follow : α → List Token → List Token → Prop

namespace Script

open Lookahead (Resembles Follow Detached)

/-- A type ends where no `<` is joined to it. -/
def type : Script TypeRef :=
  ⟨fun _ => Pieces.type, Relabel.tidy.type, Parts.type, fun _ _ => Detached⟩

/-- How an expression is laid out, compared and followed. -/
def expr : Script Expr :=
  ⟨Pieces.expr, Relabel.tidy.expr, Parts.expr, fun e => Follow e.endsInDivIs⟩

/-- A reference ends where nothing is joined to it that goes on. -/
def reference : Script Reference :=
  ⟨Pieces.reference, Relabel.tidy.reference, Parts.reference, fun _ _ => Detached⟩

/-- The same of an assignment, which ends as its value does. -/
def assignment : Script Assignment :=
  ⟨Pieces.assignment, Relabel.tidy.assignment, Parts.assignment,
    fun a => Follow a.value.endsInDivIs⟩

/-- The same of a declaration behind a modifier. -/
def visibility : Script Visibility :=
  ⟨Pieces.visibility, Relabel.tidy.visibility, Parts.visibility,
    fun v => Follow v.declaration.endsInDivIs⟩

/-- A template ends with the parenthesis of its body. -/
def template : Script Template :=
  ⟨Pieces.template, Relabel.tidy.template, Parts.template, fun _ _ _ => True⟩

/-- The same of an object, which ends in a parenthesis. -/
def object : Script Object :=
  ⟨Pieces.object, Relabel.tidy.object, Parts.object, fun _ _ _ => True⟩

/-- A member without a value ends with its type, if not with its name. -/
def member : Script Member :=
  ⟨Pieces.member, Relabel.tidy.member, Parts.member, fun p ts us => Resembles true ts us ∧
    Detached us ∧ ∀ e, p.value = some e → Follow e.endsInDivIs ts us⟩

/-- The same of an entry. -/
def entry : Script Entry :=
  ⟨Pieces.entry, Relabel.tidy.entry, Parts.entry,
    fun _ ts us => Resembles false ts us ∧ Detached us⟩

end Script

end Layout

namespace Parser

open Layout (Margin Script)
open Lookahead (Resembles Mirrors)
open Piece (tokensFrom)

variable {α β : Type} {src : Source} {n : Nat} {F : Script α} {q : Parser α} {f : α → Parser β}
  {ts us us' : List Token} {a : α} {R : β → List Token → Prop} {qs : List Piece} {cut : Bool}

/-- What was read between `ts` and `us` is read again by `q` from its pieces, and these look like
`ts`. -/
structure Copies (n : Nat) (F : Script α) (q : Parser α) (ts : List Token) (a : α)
    (us : List Token) : Prop where
  mirrors : ∀ {cut us'} (m : Margin) (blank : List Char), Resembles cut us us' →
    Mirrors cut ts (F.pieces m blank a) us'
  again : ∀ {src us'} (m : Margin) (blank : List Char) (here : Position), src.Ended →
    Parts.Separable (F.parts a) → F.follow a us us' →
    Takes src n q (tokensFrom here (F.pieces m blank a) ++ us') fun a' vs =>
      vs = us' ∧ F.tidy a' = F.tidy a

namespace Copies

variable {m : Margin} {blank : List Char} {here : Position}

/-- The tokens of a copy stand where the tokens read stood. -/
theorem mirrors_append (h : Copies n F q ts a us) (hq : Mirrors cut us qs us') :
    Mirrors cut ts (F.pieces m blank a ++ qs) us' := fun here => by
  rw [Piece.tokensFrom_append, List.append_assoc]
  exact h.mirrors m blank (hq _) here

/-- The value is read again, and then what comes behind it. -/
theorem last (h : Copies n F q ts a us) (he : src.Ended) (hs : Parts.Separable (F.parts a))
    (hf : F.follow a us us') (hnext : ∀ a', F.tidy a' = F.tidy a → Takes src n (f a') us' R) :
    Takes src n (q >>= f) (tokensFrom here (F.pieces m blank a) ++ us') R :=
  (h.again m blank here he hs hf).bind fun a' _ ⟨hv, ha⟩ => hv ▸ hnext a' ha

/-- What was found is taken again, and the run goes on behind it. -/
theorem next (h : Copies n F q ts a us) (he : src.Ended) (hs : Parts.Separable (F.parts a))
    (hf : ∀ here, F.follow a us (tokensFrom here qs ++ us'))
    (hnext : ∀ here a', F.tidy a' = F.tidy a → Takes src n (f a') (tokensFrom here qs ++ us') R) :
    Takes src n (q >>= f) (tokensFrom here (F.pieces m blank a ++ qs) ++ us') R := by
  rw [Piece.tokensFrom_append, List.append_assoc]
  exact h.last he hs (hf _) fun a' => hnext _ a'

/-- A node that makes up one of another kind is read again as that one, if its tests agree. -/
theorem within {G : Script β} {q' : Parser β} {c : α → β} (h : Copies n F q ts a us)
    (hpieces : ∀ m blank, G.pieces m blank (c a) = F.pieces m blank a)
    (htidy : ∀ a', F.tidy a' = F.tidy a → G.tidy (c a') = G.tidy (c a))
    (hparts : Parts.Separable (G.parts (c a)) → Parts.Separable (F.parts a))
    (hfollow : ∀ us', G.follow (c a) us us' → Resembles false us us' ∧ F.follow a us us')
    (hq : ∀ {src : Source} {m blank here us'} {R : β → List Token → Prop},
      Resembles false ts (tokensFrom here (F.pieces m blank a) ++ us') →
      Takes src n (c <$> q) (tokensFrom here (F.pieces m blank a) ++ us') R →
      Takes src n q' (tokensFrom here (F.pieces m blank a) ++ us') R) :
    Copies n G q' ts (c a) us := by
  refine ⟨fun m blank hu => ?_, fun {src us'} m blank here he hs hf => ?_⟩
  · rw [hpieces]
    exact h.mirrors m blank hu
  · rw [hpieces]
    obtain ⟨hsim, hf⟩ := hfollow us' hf
    exact hq (h.mirrors m blank hsim here) ((h.again m blank here he (hparts hs) hf).map
      fun a' _ => And.imp_right (htidy a'))

/-- The pieces of an expression start as it did. -/
theorem head {t : Token} {e : Expr} {q : Parser Expr} (h : Copies n .expr q (t :: ts) e us)
    (hd : ¬ Lookahead.Done (t :: ts)) (m : Margin) (blank : List Char) :
    ∃ p ps, Layout.Pieces.expr m blank e = p :: ps ∧
      (t.kind = p.kind ∨ ∃ k, t.kind.wordClass? = some k ∧ p.kind.wordClass? = some k) := by
  obtain ⟨p, ps, hps, -⟩ := Layout.Pieces.expr_behind m blank e
  obtain ⟨u, vs, hu, hk⟩ := (h.mirrors m blank (Resembles.refl false us) .origin).head hd
  rw [show Script.expr.pieces m blank e = p :: ps from hps] at hu
  obtain ⟨rfl, -⟩ := List.cons_eq_cons.1 hu
  exact ⟨p, ps, hps, hk⟩

end Copies

end Parser
end Ndf
