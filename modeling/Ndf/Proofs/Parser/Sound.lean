/-
# Invariants of the combinators

What is to hold of every parser is proved once for each combinator and then composed along the
definition of the parser.

* `Sound p`: the cursor only moves forward, and giving up leaves a problem in the notes.
* `Steady p`: besides, a value is returned between two tokens, never in the middle of one.
* `Eats p`: a value is returned only if a token was read.

A loop whose every round reads a token behaves as if its rounds were not counted (`loop_eq`), so
facts about it follow by induction on the tokens left (`loop_rec`).
-/

import Ndf.Parser.Document
import Ndf.Proofs.Parser.Reaches

namespace Ndf

/-- The end of a source is the end-of-input token. -/
def Source.Ended (src : Source) : Prop := src.stop.kind = .eof

/-- The notes hold no problem. -/
def Quiet (notes : List Note) : Prop := Note.diagnostics false notes = []

theorem quiet_nil : Quiet [] := rfl

@[simp] theorem quiet_event (e : ParseEvent) (notes : List Note) :
    Quiet (.event e :: notes) ↔ Quiet notes := Iff.rfl

@[simp] theorem quiet_breach (b : Breach) (notes : List Note) :
    Quiet (.breach b :: notes) ↔ Quiet notes := Iff.rfl

@[simp] theorem not_quiet_problem (d : Diagnostic) (notes : List Note) :
    ¬ Quiet (.problem d :: notes) := List.cons_ne_nil _ _

@[simp] theorem not_quiet_atEnd (d : Diagnostic) (notes : List Note) :
    ¬ Quiet (.atEnd d :: notes) := List.cons_ne_nil _ _

@[simp] theorem quiet_append (a b : List Note) : Quiet (a ++ b) ↔ Quiet a ∧ Quiet b := by
  induction a with
  | nil => simp [quiet_nil]
  | cons n a ih => cases n <;> simp_all

namespace Parser

variable {α β σ : Type} {p : Parser α} {f : α → Parser β} {src : Source} {c : Cursor} {a : α}

/-! ### How the combinators run -/

/-- A sequence stops where its first part gives up. -/
theorem bind_of_none (h : (p src c).value = none) :
    (p >>= f) src c = ⟨none, (p src c).cursor, (p src c).notes⟩ := by
  show Parser.bind p f src c = _
  simp only [Parser.bind, h]

/-- Otherwise the second part goes on, with the notes of both. -/
theorem bind_of_some (h : (p src c).value = some a) :
    (p >>= f) src c = ⟨(f a src (p src c).cursor).value, (f a src (p src c).cursor).cursor,
      (p src c).notes ++ (f a src (p src c).cursor).notes⟩ := by
  show Parser.bind p f src c = _
  simp only [Parser.bind, h]

/-- A value needs no recovery. -/
theorem orRecover_of_some {q : Parser α} (h : (p src c).value = some a) :
    orRecover p q src c = p src c := by
  simp only [orRecover, h]

/-- Without one recovery goes on, with the notes of both. -/
theorem orRecover_of_none {q : Parser α} (h : (p src c).value = none) :
    orRecover p q src c = ⟨(q src (p src c).cursor).value, (q src (p src c).cursor).cursor,
      (p src c).notes ++ (q src (p src c).cursor).notes⟩ := by
  simp only [orRecover, h]

/-- Returning a value reads nothing and notes nothing. -/
theorem pure_run (a : α) : (pure a : Parser α) src c = ⟨some a, c, []⟩ := rfl

/-- A function of the value changes nothing else. -/
theorem map_run (g : α → β) :
    (g <$> p) src c = ⟨(p src c).value.map g, (p src c).cursor, (p src c).notes⟩ := by
  show (p >>= fun a => pure (g a)) src c = _
  cases hv : (p src c).value with
  | none => rw [bind_of_none hv, Option.map_none]
  | some a => rw [bind_of_some hv, pure_run, List.append_nil, Option.map_some]

/-- The next token is known at once. -/
theorem peek_bind (f : Token → Parser β) :
    (peek >>= f) src c = f (c.rest.headD src.stop) src c := rfl

/-- So are all that are left. -/
theorem ahead_bind (f : List Token → Parser β) : (ahead >>= f) src c = f c.rest src c := rfl

/-- Two ways to go on are alike if they are for every value that comes back. -/
theorem bind_congr {p p' : Parser α} {f f' : α → Parser β} (h : p src c = p' src c)
    (hf : ∀ a, (p src c).value = some a →
      f a src (p src c).cursor = f' a src (p src c).cursor) :
    (p >>= f) src c = (p' >>= f') src c := by
  cases hv : (p src c).value with
  | none => rw [bind_of_none hv, bind_of_none (h ▸ hv), h]
  | some a => rw [bind_of_some hv, bind_of_some (h ▸ hv), hf a hv, h]

/-! ### Moving forward and explaining failures -/

/-- The cursor only moves forward, and giving up leaves a problem in the notes. -/
structure Sound (p : Parser α) : Prop where
  moves : ∀ {src : Source}, src.Ended → ∀ (c : Cursor), c.Reaches (p src c).cursor
  loud : ∀ {src : Source}, src.Ended → ∀ (c : Cursor), c.Fair → (p src c).value = none →
    ¬ Quiet (p src c).notes

/-- A sound parser that returns a value only between two tokens. -/
structure Steady (p : Parser α) : Prop extends Sound p where
  lands : ∀ {src : Source}, src.Ended → ∀ (c : Cursor), (p src c).value ≠ none →
    ∃ u, c.Passes u (p src c).cursor

/-- A parser that leaves the cursor where it is and does not give up. -/
def Still (p : Parser α) : Prop := ∀ src c, (p src c).cursor = c ∧ (p src c).value ≠ none

/-- Steady parsers are sound. -/
theorem Steady.sound (h : Steady p) : Sound p := h.toSound

/-- A parser that stands still is steady. -/
theorem Still.steady (h : Still p) : Steady p where
  moves _ c := by rw [(h _ c).1]; exact .refl c
  loud _ c _ hv := absurd hv (h _ c).2
  lands _ c _ := ⟨[], by rw [(h _ c).1]; exact .refl c⟩

/-- So it is sound. -/
theorem Still.sound (h : Still p) : Sound p := h.steady.sound

/-- Returning a value moves nothing. -/
theorem Still.pure (a : α) : Still (pure a : Parser α) := fun _ _ => ⟨rfl, by simp [pure_run]⟩

/-- Nor does looking at the next token. -/
theorem Still.peek : Still peek := fun _ _ => ⟨rfl, by simp [Parser.peek]⟩

/-- Nor does looking further. -/
theorem Still.ahead : Still ahead := fun _ _ => ⟨rfl, by simp [Parser.ahead]⟩

/-- Nor does setting a mark. -/
theorem Still.mark : Still mark := fun _ _ => ⟨rfl, by simp [Parser.mark]⟩

/-- Nor does the question whether something was read. -/
theorem Still.movedFrom (m : Mark) : Still (movedFrom m) :=
  fun _ _ => ⟨rfl, by simp [Parser.movedFrom]⟩

/-- Nor does taking a span. -/
theorem Still.spanFrom (m : Mark) : Still (spanFrom m) :=
  fun _ _ => ⟨rfl, by simp [Parser.spanFrom]⟩

/-- Nor does making a node of a fragment. -/
theorem Still.errorAt (s : Span) : Still (errorAt s) :=
  fun _ _ => ⟨rfl, by simp [Parser.errorAt]⟩

/-- Nor does an event. -/
theorem Still.emit (e : ParseEvent) : Still (emit e) := fun _ _ => ⟨rfl, by simp [Parser.emit]⟩

/-- Nor does a report. -/
theorem Still.report (cause : Diagnostic.Cause) (s : Span) : Still (report cause s) :=
  fun _ _ => ⟨rfl, by simp [Parser.report]⟩

/-- Two that stand still do so in sequence. -/
theorem Still.bind (hp : Still p) (hf : ∀ a, Still (f a)) : Still (p >>= f) := by
  intro src c
  obtain ⟨hc, hv⟩ := hp src c
  obtain ⟨a, ha⟩ := Option.ne_none_iff_exists'.1 hv
  rw [bind_of_some ha, hc]
  exact hf a src c

/-- The fragment since a mark is taken without moving. -/
theorem Still.errorFrom (m : Mark) : Still (errorFrom m) :=
  .bind (.spanFrom m) fun s => .errorAt s

/-- Nor does the question for a kind of token. -/
theorem Still.sees (kind : TokenKind) : Still (sees kind) :=
  .bind .peek fun _ => .pure _

/-- Two sound parsers are sound in sequence. -/
theorem Sound.bind (hp : Sound p) (hf : ∀ a, Sound (f a)) : Sound (p >>= f) where
  moves he c := by
    cases hv : (p _ c).value with
    | none => exact (bind_of_none hv).symm ▸ hp.moves he c
    | some a => exact (bind_of_some hv).symm ▸ (hp.moves he c).trans ((hf a).moves he _)
  loud he c hc := by
    cases hv : (p _ c).value with
    | none =>
      rw [bind_of_none hv]
      exact fun _ => hp.loud he c hc hv
    | some a =>
      rw [bind_of_some hv, quiet_append]
      exact fun hn hq => (hf a).loud he _ ((hp.moves he c).fair hc) hn hq.2

/-- Two steady ones are steady. -/
theorem Steady.bind (hp : Steady p) (hf : ∀ a, Steady (f a)) : Steady (p >>= f) where
  toSound := hp.sound.bind fun a => (hf a).sound
  lands he c := by
    cases hv : (p _ c).value with
    | none =>
      rw [bind_of_none hv]
      exact fun h => absurd rfl h
    | some a =>
      rw [bind_of_some hv]
      intro h
      obtain ⟨u, hu⟩ := hp.lands he c (by simp [hv])
      obtain ⟨v, hv⟩ := (hf a).lands he _ h
      exact ⟨u ++ v, hu.trans hv⟩

/-- Returning a value is steady. -/
theorem Steady.pure (a : α) : Steady (pure a : Parser α) := (Still.pure a).steady

/-- So is a function of the value. -/
theorem Steady.map (g : α → β) (hp : Steady p) : Steady (g <$> p) := hp.bind fun a => .pure (g a)

/-- Of two branches only the one taken counts. -/
theorem Sound.ite {P : Prop} [Decidable P] {p q : Parser α} (hp : Sound p) (hq : Sound q) :
    Sound (if P then p else q) := by
  split
  · exact hp
  · exact hq

/-- The same of steady ones. -/
theorem Steady.ite {P : Prop} [Decidable P] {p q : Parser α} (hp : Steady p) (hq : Steady q) :
    Steady (if P then p else q) := by
  split
  · exact hp
  · exact hq

/-- Taking a token by its fields. -/
theorem bump_run {t : Token} {ts : List Token} (h : c.rest = t :: ts) :
    bump src c = ⟨some (), ⟨ts, c.count + 1, t.span, c.depth⟩, []⟩ := by
  simp only [bump, h]

/-- At the end nothing is taken. -/
theorem bump_run_nil (h : c.rest = []) : bump src c = ⟨some (), c, []⟩ := by
  simp only [bump, h]

/-- Taking a token always succeeds. -/
theorem bump_value : (bump src c).value = some () := by
  cases hr : c.rest with
  | nil => rw [bump_run_nil hr]
  | cons t ts => rw [bump_run hr]

/-- It drops the first token left. -/
theorem bump_rest : (bump src c).cursor.rest = c.rest.tail := by
  cases hr : c.rest with
  | nil => rw [bump_run_nil hr, hr, List.tail_nil]
  | cons t ts => rw [bump_run hr, List.tail_cons]

/-- A token is taken whole. -/
theorem Steady.bump : Steady bump := by
  have key (src : Source) (c : Cursor) : (Parser.bump src c).value ≠ none ∧
      ∃ u, c.Passes u (Parser.bump src c).cursor := by
    rcases hr : c.rest with _ | ⟨t, ts⟩
    · rw [bump_run_nil hr]
      exact ⟨by simp, [], .refl c⟩
    · rw [bump_run hr]
      exact ⟨by simp, [t], .one hr⟩
  exact ⟨⟨fun _ c => .inl (key _ c).2, fun _ c _ h => absurd h (key _ c).1⟩,
    fun _ c _ => (key _ c).2⟩

/-- So are several. -/
theorem Steady.skip (n : Nat) : Steady (skip n) := by
  induction n with
  | zero => exact .pure ()
  | succ n ih => exact .bind .bump fun _ => ih

/-- A problem at a token that was not reported before is noted. -/
theorem not_quiet_notesAt (he : src.Ended) (hc : c.Fair) (cause : Diagnostic.Cause) :
    ¬ Quiet (notesAt (c.rest.headD src.stop) cause) := by
  unfold notesAt
  split
  · simp
  · rename_i e hk
    rcases hr : c.rest with _ | ⟨t, ts⟩ <;> rw [hr] at hk
    · cases hk.symm.trans he
    · rw [hc t (by simp [hr]) e hk]
      simp
  · simp

/-- Giving up right behind a problem at the next token. -/
theorem Steady.abortHere (cause : Token → Diagnostic.Cause) :
    Steady (do reportHere (cause (← Parser.peek)); (abort : Parser α)) where
  moves _ c := .refl c
  loud {src} he c hc _ := by
    show ¬ Quiet (notesAt (c.rest.headD src.stop) (cause (c.rest.headD src.stop)) ++ [])
    rw [List.append_nil]
    exact not_quiet_notesAt he hc _
  lands _ c h := absurd rfl h

/-- A complaint is a problem. -/
theorem Steady.unexpected (due : String) : Steady (unexpected due : Parser α) :=
  .abortHere fun t => .expected due t.kind.name

/-- A token is taken if it is looked for. -/
theorem Steady.eat (kind : TokenKind) : Steady (eat kind) :=
  .bind (Still.sees kind).steady fun _ => .ite (.bind .bump fun _ => .pure _) (.pure _)

/-- A token is taken, or its absence is a problem. -/
theorem Steady.expect (kind : TokenKind) (due : String) : Steady (expect kind due) :=
  .bind (Still.sees kind).steady fun _ => .ite .bump (.unexpected due)

/-- So it is with a keyword. -/
theorem Steady.expectKeyword (keyword : Keyword) : Steady (expectKeyword keyword) :=
  .bind Still.peek.steady fun _ => .ite .bump (.unexpected _)

/-- So it is with a name. -/
theorem Steady.name (due : String) : Steady (name due) := by
  refine .bind Still.peek.steady fun t => ?_
  split
  · exact .bind .bump fun _ => .pure _
  · exact .unexpected due

/-! ### One level deeper -/

/-- Below the last level nothing but `deep` is read. -/
theorem nested_of_le {deep : Parser α} (h : maxNesting ≤ c.depth) :
    nested deep p src c = deep src c := by
  rw [nested, if_neg (Nat.not_lt.2 h)]

/-- A level that is opened is closed. -/
theorem nested_of_lt {deep : Parser α} (hp : Sound p) (he : src.Ended) (h : c.depth < maxNesting) :
    nested deep p src c =
      ⟨(p src c.down).value, (p src c.down).cursor.up, (p src c.down).notes⟩ := by
  have hdepth : (p src c.down).cursor.depth ≠ 0 := by
    rw [(hp.moves he c.down).depth]
    exact Nat.succ_ne_zero _
  rw [nested, if_pos h, Outcome.up, if_neg hdepth]

/-- One level deeper, or at the cut. -/
theorem Sound.nested {deep : Parser α} (hd : Sound deep) (hp : Sound p) :
    Sound (nested deep p) where
  moves he c := by
    rcases Nat.lt_or_ge c.depth maxNesting with h | h
    · rw [nested_of_lt hp he h]
      exact (hp.moves he c.down).up
    · rw [nested_of_le h]
      exact hd.moves he c
  loud he c hc hv := by
    rcases Nat.lt_or_ge c.depth maxNesting with h | h
    · rw [nested_of_lt hp he h] at hv ⊢
      exact hp.loud he c.down hc hv
    · rw [nested_of_le h] at hv ⊢
      exact hd.loud he c hc hv

/-- The same of steady ones. -/
theorem Steady.nested {deep : Parser α} (hd : Steady deep) (hp : Steady p) :
    Steady (nested deep p) where
  toSound := .nested hd.sound hp.sound
  lands he c hv := by
    rcases Nat.lt_or_ge c.depth maxNesting with h | h
    · rw [nested_of_lt hp.sound he h] at hv ⊢
      obtain ⟨u, hu⟩ := hp.lands he c.down hv
      exact ⟨u, hu.up⟩
    · rw [nested_of_le h] at hv ⊢
      exact hd.lands he c hv

/-! ### Reading a token at least -/

/-- From here a value is returned only if a token was read. -/
def EatsAt (src : Source) (c : Cursor) (p : Parser α) : Prop :=
  (p src c).value ≠ none → (p src c).cursor.rest.length < c.rest.length

/-- A value is returned only if a token was read. -/
def Eats (p : Parser α) : Prop :=
  ∀ ⦃src : Source⦄, src.Ended → ∀ (c : Cursor), EatsAt src c p

/-- Of two branches only the one taken counts. -/
theorem EatsAt.ite {P : Prop} [Decidable P] {p q : Parser α} (hp : EatsAt src c p)
    (hq : EatsAt src c q) : EatsAt src c (if P then p else q) := by
  split
  · exact hp
  · exact hq

/-- What is taken may depend on the next token. -/
theorem Eats.peek {f : Token → Parser β} (h : ∀ ⦃src : Source⦄, src.Ended → ∀ (c : Cursor),
    EatsAt src c (f (c.rest.headD src.stop))) : Eats (peek >>= f) := h

/-- The first part takes a token. -/
theorem Eats.bind (hp : Eats p) (hf : ∀ a, Sound (f a)) : Eats (p >>= f) := by
  intro src he c
  cases hv : (p src c).value with
  | none =>
    rw [EatsAt, bind_of_none hv]
    exact fun h => absurd rfl h
  | some a =>
    rw [EatsAt, bind_of_some hv]
    intro _
    exact Nat.lt_of_le_of_lt ((hf a).moves he _).length_le (hp he c (by simp [hv]))

/-- The second one does. -/
theorem Eats.bind_right (hp : Sound p) (hf : ∀ a, Eats (f a)) : Eats (p >>= f) := by
  intro src he c
  cases hv : (p src c).value with
  | none =>
    rw [EatsAt, bind_of_none hv]
    exact fun h => absurd rfl h
  | some a =>
    rw [EatsAt, bind_of_some hv]
    intro h
    exact Nat.lt_of_lt_of_le (hf a he _ h) (hp.moves he c).length_le

/-- A function of the value changes nothing. -/
theorem Eats.map (g : α → β) (hp : Eats p) : Eats (g <$> p) :=
  hp.bind fun a => (Steady.pure (g a)).sound

/-- Of two branches only the one taken counts, from all places. -/
theorem Eats.ite {P : Prop} [Decidable P] {p q : Parser α} (hp : Eats p) (hq : Eats q) :
    Eats (if P then p else q) := by
  split
  · exact hp
  · exact hq

/-- One level deeper, or at the cut. -/
theorem Eats.nested {deep : Parser α} (hd : Eats deep) (hs : Sound p) (hp : Eats p) :
    Eats (nested deep p) := by
  intro src he c hv
  rcases Nat.lt_or_ge c.depth maxNesting with h | h
  · rw [nested_of_lt hs he h] at hv ⊢
    exact hp he c.down hv
  · rw [nested_of_le h] at hv ⊢
    exact hd he c hv

/-- Giving up returns no value. -/
theorem Eats.abort : Eats (abort : Parser α) := fun _ _ _ h => absurd rfl h

/-- Nor does a complaint. -/
theorem Eats.unexpected (due : String) : Eats (unexpected due : Parser α) :=
  fun _ _ _ h => absurd rfl h

/-- The end of the input is of its own kind, so a token of another kind is there to be read. -/
theorem exists_rest (he : src.Ended) (h : (c.rest.headD src.stop).kind ≠ .eof) :
    ∃ t ts, c.rest = t :: ts ∧ (c.rest.headD src.stop).kind = t.kind := by
  rcases hr : c.rest with _ | ⟨t, ts⟩
  · rw [hr] at h
    exact absurd he h
  · exact ⟨t, ts, rfl, rfl⟩

/-- Where the next token is not the final one, one is left. -/
theorem rest_ne_nil (he : src.Ended) (h : (c.rest.headD src.stop).kind ≠ .eof) : c.rest ≠ [] := by
  obtain ⟨t, ts, hr, -⟩ := exists_rest he h
  rw [hr]
  exact List.cons_ne_nil t ts

/-- Taking it leaves fewer. -/
theorem bump_lt (h : c.rest ≠ []) : (bump src c).cursor.rest.length < c.rest.length := by
  obtain ⟨t, ts, hr⟩ := List.exists_cons_of_ne_nil h
  rw [bump_run hr, hr]
  exact Nat.lt_succ_self _

/-- Reading on behind a token. -/
theorem bump_then_lt {q : Parser α} (hq : Sound q) (he : src.Ended) (h : c.rest ≠ []) :
    ((bump >>= fun _ => q) src c).cursor.rest.length < c.rest.length := by
  rw [bind_of_some bump_value]
  exact Nat.lt_of_le_of_lt (hq.moves he _).length_le (bump_lt h)

/-- Behind a token taken anything may follow. -/
theorem EatsAt.bump {q : Parser α} (h : c.rest ≠ []) (he : src.Ended) (hq : Sound q) :
    EatsAt src c (Parser.bump >>= fun _ => q) := fun _ => bump_then_lt hq he h

/-- A token is taken if its kind is looked for. -/
theorem eat_run (kind : TokenKind) : eat kind src c =
    (if (c.rest.headD src.stop).kind == kind then bump >>= fun _ => pure true
      else pure false) src c := rfl

/-- The answer is yes or no. -/
theorem eat_value (src : Source) (c : Cursor) (kind : TokenKind) :
    ∃ b, (eat kind src c).value = some b := by
  rw [eat_run]
  split
  · rw [bind_of_some bump_value]
    exact ⟨true, rfl⟩
  · exact ⟨false, rfl⟩

/-- A token is taken, or there is a complaint. -/
theorem expect_run (kind : TokenKind) (due : String) : expect kind due src c =
    (if (c.rest.headD src.stop).kind == kind then bump else unexpected due) src c := rfl

/-- So it is with a keyword. -/
theorem expectKeyword_run (keyword : Keyword) : expectKeyword keyword src c =
    (if (c.rest.headD src.stop).kind.keyword? == some keyword then bump
      else unexpected ("'" ++ keyword.spelling ++ "'")) src c := rfl

/-- The token asked for is taken, unless it is the final one. -/
theorem Eats.expect {kind : TokenKind} (hk : kind ≠ .eof) (due : String) :
    Eats (expect kind due) := by
  intro src he c
  rw [EatsAt, expect_run]
  split
  · rename_i h
    exact fun _ => bump_lt (rest_ne_nil he (eq_of_beq h ▸ hk))
  · exact fun hn => absurd rfl hn

/-- So is the keyword. -/
theorem Eats.expectKeyword (keyword : Keyword) : Eats (expectKeyword keyword) := by
  intro src he c
  rw [EatsAt, expectKeyword_run]
  split
  · rename_i h
    refine fun _ => bump_lt (rest_ne_nil he fun hk => ?_)
    rw [hk] at h
    exact absurd h (by simp [TokenKind.keyword?, TokenKind.wordClass?])
  · exact fun hn => absurd rfl hn

/-- A word is taken as a name. -/
theorem name_run_word {text : String} {wordClass : WordClass}
    (h : (c.rest.headD src.stop).kind = .word text wordClass) (due : String) :
    name due src c =
      (bump >>= fun _ => pure ⟨text, (c.rest.headD src.stop).span⟩) src c := by
  simp only [Parser.name, peek_bind, h]

/-- Another token is no name. -/
theorem name_run_other (h : (c.rest.headD src.stop).kind.isWord = false) (due : String) :
    name due src c = unexpected due src c := by
  simp only [Parser.name, peek_bind]
  cases hk : (c.rest.headD src.stop).kind with
  | word text wordClass =>
    rw [hk] at h
    exact absurd h (by simp [TokenKind.isWord, TokenKind.wordClass?])
  | _ => rfl

/-- A name is a token. -/
theorem Eats.name (due : String) : Eats (name due) := by
  intro src he c
  cases hk : (c.rest.headD src.stop).kind with
  | word text wordClass =>
    rw [EatsAt, name_run_word hk]
    exact fun _ => bump_then_lt (Steady.pure _).sound he (rest_ne_nil he (by rw [hk]; simp))
  | _ =>
    rw [EatsAt, name_run_other (by rw [hk]; rfl)]
    exact fun hn => absurd rfl hn

/-! ### Loops -/

/-- What a loop does with the result of one round. -/
def again (next : σ → Parser β) : σ ⊕ β → Parser β
  | .inl s => next s
  | .inr b => pure b

/-- A step that goes on has read a token. -/
def Advances (step : σ → Parser (σ ⊕ β)) : Prop := ∀ ⦃src : Source⦄, src.Ended →
  ∀ (s s' : σ) (c : Cursor), (step s src c).value = some (.inl s') →
    (step s src c).cursor.rest.length < c.rest.length

variable {step : σ → Parser (σ ⊕ β)}

/-- Rounds that take a token advance. -/
theorem Eats.advances (h : ∀ s, Eats (step s)) : Advances step :=
  fun _ he s _ c hs => h s he c (hs ▸ Option.some_ne_none _)

/-- Without a token left to spend one more round has to be the last. -/
theorem rounds_nil (s : σ) : rounds step [] s = step s >>= again fun _ => breach .rounds := by
  rw [rounds]
  congr 1

/-- A round goes on with one token less to spend. -/
theorem rounds_cons (t : Token) (ts : List Token) (s : σ) :
    rounds step (t :: ts) s = step s >>= again (rounds step ts) := by
  rw [rounds]
  congr 1

/-- As many rounds as there are tokens left are as good as any larger number. -/
theorem rounds_eq (h : Advances step) (he : src.Ended) (ts us : List Token) (s : σ) (c : Cursor)
    (ht : c.rest.length ≤ ts.length) (hu : c.rest.length ≤ us.length) :
    rounds step ts s src c = rounds step us s src c := by
  -- On the one budget; both are long enough, since a round that goes on takes a token.
  induction ts generalizing us s c with
  | nil =>
    cases us with
    | nil => rfl
    | cons u us =>
      rw [rounds_nil, rounds_cons]
      refine bind_congr rfl fun r hr => ?_
      cases r with
      | inl s' =>
        have := h he s s' c hr
        simp only [List.length_nil] at ht
        omega
      | inr b => rfl
  | cons t ts ih =>
    cases us with
    | nil =>
      rw [rounds_nil, rounds_cons]
      refine bind_congr rfl fun r hr => ?_
      cases r with
      | inl s' =>
        have := h he s s' c hr
        simp only [List.length_nil] at hu
        omega
      | inr b => rfl
    | cons u us =>
      rw [rounds_cons, rounds_cons]
      refine bind_congr rfl fun r hr => ?_
      cases r with
      | inl s' =>
        have := h he s s' c hr
        simp only [List.length_cons] at ht hu
        exact ih us s' _ (by omega) (by omega)
      | inr b => rfl

/-- **A loop takes a step and goes on as it began.** -/
theorem loop_eq (h : Advances step) (he : src.Ended) (s : σ) (c : Cursor) :
    loop step s src c = (step s >>= again (loop step)) src c := by
  unfold loop
  rcases hr : c.rest with _ | ⟨t, ts⟩
  · rw [rounds_nil]
    refine bind_congr rfl fun r hv => ?_
    cases r with
    | inl s' =>
      have := h he s s' c hv
      simp [hr] at this
    | inr b => rfl
  · rw [rounds_cons]
    refine bind_congr rfl fun r hv => ?_
    cases r with
    | inl s' =>
      have := h he s s' c hv
      simp only [hr, List.length_cons] at this
      exact rounds_eq h he _ _ s' _ (by omega) (Nat.le_refl _)
    | inr b => rfl

/-- Induction over the rounds of a loop. -/
theorem loop_rec {P : σ → Cursor → Outcome β → Prop} (h : Advances step) (he : src.Ended)
    (round : ∀ s c,
      (∀ s', (step s src c).value = some (.inl s') →
        P s' (step s src c).cursor (loop step s' src (step s src c).cursor)) →
      P s c ((step s >>= again (loop step)) src c)) :
    ∀ s c, P s c (loop step s src c) := by
  intro s c
  induction hn : c.rest.length using Nat.strongRecOn generalizing s c with
  | ind n ih =>
    rw [loop_eq h he]
    exact round s c fun s' hs => ih _ (hn ▸ h he s s' c hs) s' _ rfl

/-- A loop is sound if its rounds are. -/
theorem Sound.loop (h : Advances step) (hs : ∀ s, Sound (step s)) (s : σ) :
    Sound (loop step s) where
  moves he := by
    refine loop_rec h he (P := fun _ c o => c.Reaches o.cursor) (fun s c ih => ?_) s
    cases hv : (step s _ c).value with
    | none => exact (bind_of_none hv).symm ▸ (hs s).moves he c
    | some r =>
      rw [bind_of_some hv]
      cases r with
      | inl s' => exact ((hs s).moves he c).trans (ih s' hv)
      | inr b => exact (hs s).moves he c
  loud he := by
    refine loop_rec h he (P := fun _ c o => c.Fair → o.value = none → ¬ Quiet o.notes)
      (fun s c ih hc => ?_) s
    cases hv : (step s _ c).value with
    | none =>
      rw [bind_of_none hv]
      exact fun _ => (hs s).loud he c hc hv
    | some r =>
      rw [bind_of_some hv, quiet_append]
      cases r with
      | inl s' => exact fun hn hq => ih s' hv (((hs s).moves he c).fair hc) hn hq.2
      | inr b => exact fun hn _ => absurd hn (by simp [again, pure_run])

/-- It is steady if they are. -/
theorem Steady.loop (h : Advances step) (hs : ∀ s, Steady (step s)) (s : σ) :
    Steady (loop step s) where
  toSound := .loop h (fun s => (hs s).sound) s
  lands he := by
    refine loop_rec h he (P := fun _ c o => o.value ≠ none → ∃ u, c.Passes u o.cursor)
      (fun s c ih => ?_) s
    cases hv : (step s _ c).value with
    | none =>
      rw [bind_of_none hv]
      exact fun h => absurd rfl h
    | some r =>
      rw [bind_of_some hv]
      obtain ⟨u, hu⟩ := (hs s).lands he c (by simp [hv])
      cases r with
      | inl s' =>
        intro h
        obtain ⟨v, hv⟩ := ih s' hv h
        exact ⟨u ++ v, hu.trans hv⟩
      | inr b => exact fun _ => ⟨u, hu⟩

end Parser

end Ndf
