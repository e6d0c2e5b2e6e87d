/-
# Reading tokens of the same shapes

The shape of a token is its kind, with the text it carries, and whether it is joined to the token
before.  `Blind f p p'` says of two parsers that where the tokens ahead have the same shapes, both
read the same number of them and end with values that `f` does not tell apart, and either both find
a problem or none does.  The sources may differ in everything else: their texts, the spans of their
tokens, what was read before.

A parser is blind to places if each of its steps is, since no step asks a mark for more than the
number of tokens read, nor a token for more than its shape.
-/

import Ndf.Proofs.Concat.Near
import Ndf.Proofs.Parser.Sound
import Ndf.Proofs.Tree.Bare

namespace Ndf

/-- The kind of a token and whether it is joined. -/
def Token.shape (t : Token) : TokenKind × Bool := (t.kind, t.joined)

/-- Two places with tokens of the same shapes ahead. -/
structure Cursor.Beside (c c' : Cursor) : Prop where
  rest : c'.rest.map Token.shape = c.rest.map Token.shape
  count : c'.count = c.count
  depth : c'.depth = c.depth

/-- Going up one level keeps the value. -/
theorem Outcome.value_up {α : Type} (o : Outcome α) : o.up.value = o.value := by
  rw [Outcome.up]
  split <;> rfl

/-- It notes nothing. -/
theorem Outcome.quiet_up {α : Type} (o : Outcome α) : Quiet o.up.notes ↔ Quiet o.notes := by
  rw [Outcome.up]
  split
  · rw [quiet_append]
    exact and_iff_left quiet_nil
  · exact Iff.rfl

/-- Closing a level on both sides. -/
theorem Cursor.Beside.up {α : Type} {o o' : Outcome α} (h : o.cursor.Beside o'.cursor) :
    o.up.cursor.Beside o'.up.cursor := by
  by_cases h0 : o.cursor.depth = 0
  · rwa [Outcome.up, if_pos h0, Outcome.up, if_pos (h.depth.trans h0)]
  · rw [Outcome.up, if_neg h0, Outcome.up, if_neg (h.depth ▸ h0)]
    exact ⟨h.rest, h.count, congrArg (· - 1) h.depth⟩

/-- The end of the input is of one kind everywhere. -/
theorem Cursor.Beside.head {src src' : Source} (hs : src.Ended) (hs' : src'.Ended) {c c' : Cursor}
    (hc : c.Beside c') : (c'.rest.headD src'.stop).kind = (c.rest.headD src.stop).kind := by
  have hrest := hc.rest
  cases hr : c.rest with
  | nil =>
    rw [hr, List.map_nil, List.map_eq_nil_iff] at hrest
    rw [hrest]
    exact hs'.trans hs.symm
  | cons t ts =>
    rw [hr, List.map_cons, List.map_eq_cons_iff] at hrest
    obtain ⟨t', ts', hr', ht, -⟩ := hrest
    rw [hr']
    exact congrArg Prod.fst ht

namespace Lookahead

variable {ts us : List Token}

/-- Tokens of the same shapes are as many. -/
theorem length_of_shapes (h : us.map Token.shape = ts.map Token.shape) :
    us.length = ts.length := by
  simpa using congrArg List.length h

/-- They are of the same kinds. -/
theorem kinds_of_shapes (h : us.map Token.shape = ts.map Token.shape) :
    us.map Token.kind = ts.map Token.kind := by
  simpa [Function.comp_def, Token.shape] using congrArg (List.map Prod.fst) h

/-- So is the token at each place. -/
theorem kind?_of_shapes (h : us.map Token.shape = ts.map Token.shape) (n : Nat) :
    kind? us n = kind? ts n := by
  rw [kind?, kind?, ← List.getElem?_map, ← List.getElem?_map, kinds_of_shapes h]

/-- It is joined or not alike. -/
theorem isJoined_of_shapes (h : us.map Token.shape = ts.map Token.shape) (n : Nat) :
    isJoined us n = isJoined ts n := by
  have hjoined : us.map Token.joined = ts.map Token.joined := by
    simpa [Function.comp_def, Token.shape] using congrArg (List.map Prod.snd) h
  have hget : us[n]?.map Token.joined = ts[n]?.map Token.joined := by
    rw [← List.getElem?_map, ← List.getElem?_map, hjoined]
  unfold isJoined
  cases hu : us[n]? <;> cases ht : ts[n]? <;> simp_all

/-- No test of what lies ahead tells tokens of the same shapes apart. -/
theorem near_of_shapes (h : us.map Token.shape = ts.map Token.shape) : Near ts us :=
  ⟨fun n _ => kind?_of_shapes h n, fun n _ _ => isJoined_of_shapes h n, .inl (length_of_shapes h)⟩

end Lookahead

namespace Parser

/-- From these two places the parsers read as many tokens, `f` does not tell their values apart,
and both find a problem or none does. -/
def BlindAt {α γ : Type} (src src' : Source) (c c' : Cursor) (f : α → γ) (p p' : Parser α) :
    Prop :=
  (p' src' c').value.map f = (p src c).value.map f ∧
    (p src c).cursor.Beside (p' src' c').cursor ∧ (Quiet (p' src' c').notes ↔ Quiet (p src c).notes)

/-- Wherever the tokens ahead have the same shapes, the parsers read as many of them, `f` does not
tell their values apart, and both find a problem or none does. -/
def Blind {α γ : Type} (f : α → γ) (p p' : Parser α) : Prop :=
  ∀ ⦃src src' : Source⦄, src.Ended → src'.Ended → ∀ ⦃c c' : Cursor⦄, c.Beside c' →
    BlindAt src src' c c' f p p'

variable {α β γ δ σ τ : Type} {f : α → γ} {h : β → δ} {p p' q q' : Parser α}
  {k k' : α → Parser β}

/-! ### Combinators -/

/-- A sequence, whose second part may differ where `f` does not. -/
theorem Blind.bind (hp : Blind f p p') (hk : ∀ a a', f a' = f a → Blind h (k a) (k' a')) :
    Blind h (p >>= k) (p' >>= k') := by
  intro src src' hs hs' c c' hc
  obtain ⟨hvalue, hcursor, hquiet⟩ := hp hs hs' hc
  cases hv : (p src c).value with
  | none =>
    rw [hv, Option.map_none, Option.map_eq_none_iff] at hvalue
    rw [BlindAt, bind_of_none hv, bind_of_none hvalue]
    exact ⟨rfl, hcursor, hquiet⟩
  | some a =>
    rw [hv, Option.map_some, Option.map_eq_some_iff] at hvalue
    obtain ⟨a', ha', hf⟩ := hvalue
    obtain ⟨hvalue, hcursor, hquiet'⟩ := hk a a' hf hs hs' hcursor
    rw [BlindAt, bind_of_some hv, bind_of_some ha', quiet_append, quiet_append]
    exact ⟨hvalue, hcursor, and_congr hquiet hquiet'⟩

/-- Going on with a value that is the same. -/
theorem Blind.same (hp : Blind id p p') (hk : ∀ a, Blind h (k a) (k' a)) :
    Blind h (p >>= k) (p' >>= k') :=
  hp.bind fun a a' ha => (show a' = a from ha) ▸ hk a

/-- Values that `f` does not tell apart. -/
theorem Blind.pure {a a' : α} (ha : f a' = f a) : Blind f (Pure.pure a) (Pure.pure a') :=
  fun _ _ _ _ _ _ hc => ⟨congrArg some ha, hc, Iff.rfl⟩

/-- Both give up. -/
theorem Blind.abort : Blind f (Parser.abort : Parser α) Parser.abort :=
  fun _ _ _ _ _ _ hc => ⟨rfl, hc, Iff.rfl⟩

/-- Both note a breach. -/
theorem Blind.breach (b : Breach) : Blind f (Parser.breach b : Parser α) (Parser.breach b) :=
  fun _ _ _ _ _ _ hc => ⟨rfl, hc, Iff.rfl⟩

/-- A function that keeps what `f` tells apart. -/
theorem Blind.map {g : α → β} (hp : Blind f p p') (hg : ∀ a a', f a' = f a → h (g a') = h (g a)) :
    Blind h (g <$> p) (g <$> p') :=
  hp.bind fun a a' ha => .pure (hg a a' ha)

/-- Conditions that hold of both or of none. -/
theorem Blind.ite {P P' : Prop} [Decidable P] [Decidable P'] (hP : P' ↔ P) (hp : Blind f p p')
    (hq : Blind f q q') : Blind f (if P then p else q) (if P' then p' else q') := by
  by_cases hc : P
  · rwa [if_pos hc, if_pos (hP.2 hc)]
  · rwa [if_neg hc, if_neg (mt hP.1 hc)]

/-- Recovery is needed in both or in none. -/
theorem Blind.orRecover (hp : Blind f p p') (hq : Blind f q q') :
    Blind f (Parser.orRecover p q) (Parser.orRecover p' q') := by
  intro src src' hs hs' c c' hc
  obtain ⟨hvalue, hcursor, hquiet⟩ := hp hs hs' hc
  cases hv : (p src c).value with
  | none =>
    have hv' : (p' src' c').value = none := by
      rwa [hv, Option.map_none, Option.map_eq_none_iff] at hvalue
    obtain ⟨hvalue, hcursor, hquiet'⟩ := hq hs hs' hcursor
    rw [BlindAt, orRecover_of_none hv, orRecover_of_none hv', quiet_append, quiet_append]
    exact ⟨hvalue, hcursor, and_congr hquiet hquiet'⟩
  | some a =>
    obtain ⟨a', ha', -⟩ := Option.map_eq_some_iff.1 (hvalue.trans (congrArg (Option.map f) hv))
    rw [BlindAt, orRecover_of_some hv, orRecover_of_some ha']
    exact ⟨hvalue, hcursor, hquiet⟩

/-- What is opened on one side is opened on the other, as both count the same levels. -/
theorem Blind.nested {deep deep' : Parser α} (hd : Blind f deep deep') (hp : Blind f p p') :
    Blind f (Parser.nested deep p) (Parser.nested deep' p') := by
  intro src src' hs hs' c c' hc
  by_cases hlt : c.depth < maxNesting
  · have hdown : c.down.Beside c'.down := ⟨hc.rest, hc.count, congrArg (· + 1) hc.depth⟩
    obtain ⟨hvalue, hcursor, hquiet⟩ := hp hs hs' hdown
    rw [BlindAt, Parser.nested, Parser.nested, if_pos hlt, if_pos (hc.depth ▸ hlt),
      Outcome.value_up, Outcome.value_up, Outcome.quiet_up, Outcome.quiet_up]
    exact ⟨hvalue, hcursor.up, hquiet⟩
  · rw [BlindAt, Parser.nested, Parser.nested, if_neg hlt, if_neg (hc.depth ▸ hlt)]
    exact hd hs hs' hc

/-! ### Tokens -/

/-- Marks count the same tokens. -/
theorem Blind.mark : Blind Mark.count Parser.mark Parser.mark :=
  fun _ _ _ _ _ _ hc => ⟨congrArg some hc.count, hc, Iff.rfl⟩

/-- The next tokens are of one kind. -/
theorem Blind.peek {k k' : Token → Parser β}
    (hk : ∀ t t' : Token, t'.kind = t.kind → Blind h (k t) (k' t')) :
    Blind h (Parser.peek >>= k) (Parser.peek >>= k') :=
  fun _ _ hs hs' _ _ hc => hk _ _ (hc.head hs hs') hs hs' hc

/-- Those ahead have the same shapes. -/
theorem Blind.ahead {k k' : List Token → Parser β}
    (hk : ∀ ts us : List Token, us.map Token.shape = ts.map Token.shape →
      Blind h (k ts) (k' us)) : Blind h (Parser.ahead >>= k) (Parser.ahead >>= k') :=
  fun _ _ hs hs' _ _ hc => hk _ _ hc.rest hs hs' hc

/-- Both take a token. -/
theorem Blind.bump : Blind id Parser.bump Parser.bump := by
  intro src src' _ _ c c' hc
  have hrest := hc.rest
  cases hr : c.rest with
  | nil =>
    rw [hr, List.map_nil, List.map_eq_nil_iff] at hrest
    rw [BlindAt, bump_run_nil hr, bump_run_nil hrest]
    exact ⟨rfl, hc, Iff.rfl⟩
  | cons t ts =>
    rw [hr, List.map_cons, List.map_eq_cons_iff] at hrest
    obtain ⟨t', ts', hr', -, hts⟩ := hrest
    rw [BlindAt, bump_run hr, bump_run hr']
    exact ⟨rfl, ⟨hts, congrArg (· + 1) hc.count, hc.depth⟩, Iff.rfl⟩

/-- The second halves are of one shape. -/
theorem Blind.bumpHalf : Blind id Parser.bumpHalf Parser.bumpHalf := by
  intro src src' _ _ c c' hc
  have hrest := hc.rest
  unfold BlindAt Parser.bumpHalf
  cases hr : c.rest with
  | nil =>
    rw [hr, List.map_nil, List.map_eq_nil_iff] at hrest
    simp only [hrest]
    exact ⟨trivial, hc, trivial⟩
  | cons t ts =>
    rw [hr, List.map_cons, List.map_eq_cons_iff] at hrest
    obtain ⟨t', ts', hr', -, hts⟩ := hrest
    simp only [hr']
    refine ⟨trivial, ⟨?_, congrArg (· + 1) hc.count, hc.depth⟩, trivial⟩
    rw [List.map_cons, List.map_cons, hts]
    rfl

/-- Both take as many. -/
theorem Blind.skip (n : Nat) : Blind id (Parser.skip n) (Parser.skip n) := by
  induction n with
  | zero => exact .pure rfl
  | succ n ih => exact .same .bump fun _ => ih

/-- Events are no problems. -/
theorem Blind.emit (e e' : ParseEvent) : Blind id (Parser.emit e) (Parser.emit e') :=
  fun _ _ _ _ _ _ hc => ⟨rfl, hc, Iff.rfl⟩

/-- A report is a problem, whatever it says and wherever. -/
theorem Blind.report (cause cause' : Diagnostic.Cause) (s s' : Span) :
    Blind id (Parser.report cause s) (Parser.report cause' s') :=
  fun _ _ _ _ _ _ hc => ⟨rfl, hc, iff_of_false (not_quiet_problem _ _) (not_quiet_problem _ _)⟩

/-- Whether a problem at a token is noted is told by its kind. -/
theorem quiet_notesAt {t t' : Token} (hk : t'.kind = t.kind) (cause cause' : Diagnostic.Cause) :
    Quiet (notesAt t' cause') ↔ Quiet (notesAt t cause) := by
  unfold notesAt
  rw [hk]
  split
  · exact iff_of_false (not_quiet_atEnd _ _) (not_quiet_atEnd _ _)
  · split
    · exact Iff.rfl
    · exact iff_of_false (not_quiet_problem _ _) (not_quiet_problem _ _)
  · exact iff_of_false (not_quiet_problem _ _) (not_quiet_problem _ _)

/-- Giving up at the next token. -/
theorem Blind.abortHere (cause : Token → Diagnostic.Cause) : Blind f
    (do reportHere (cause (← Parser.peek)); (Parser.abort : Parser α))
    (do reportHere (cause (← Parser.peek)); (Parser.abort : Parser α)) := by
  intro src src' hs hs' c c' hc
  refine ⟨rfl, hc, ?_⟩
  show Quiet (notesAt (c'.rest.headD src'.stop) _ ++ []) ↔
    Quiet (notesAt (c.rest.headD src.stop) _ ++ [])
  rw [List.append_nil, List.append_nil]
  exact quiet_notesAt (hc.head hs hs') _ _

/-- So is a complaint at the next token. -/
theorem Blind.unexpected (due : String) :
    Blind f (Parser.unexpected due : Parser α) (Parser.unexpected due) :=
  .abortHere fun t => .expected due t.kind.name

/-- The answer depends on the kind only. -/
theorem Blind.sees (kind : TokenKind) : Blind id (Parser.sees kind) (Parser.sees kind) :=
  .peek fun t t' hk => .pure (by rw [hk])

/-- So it does where the token is taken. -/
theorem Blind.eat (kind : TokenKind) : Blind id (Parser.eat kind) (Parser.eat kind) :=
  .same (.sees kind) fun _ => .ite Iff.rfl (.same .bump fun _ => .pure rfl) (.pure rfl)

/-- So it does where it is asked for. -/
theorem Blind.expect (kind : TokenKind) (due : String) :
    Blind id (Parser.expect kind due) (Parser.expect kind due) :=
  .same (.sees kind) fun _ => .ite Iff.rfl .bump (.unexpected due)

/-- So it is with a keyword. -/
theorem Blind.expectKeyword (keyword : Keyword) :
    Blind id (Parser.expectKeyword keyword) (Parser.expectKeyword keyword) := by
  refine .peek fun t t' hk => ?_
  rw [hk]
  exact .ite Iff.rfl .bump (.unexpected _)

/-- So it is with a name, apart from its place. -/
theorem Blind.name (due : String) : Blind Bare.name (Parser.name due) (Parser.name due) := by
  refine .peek fun t t' hk => ?_
  rw [hk]
  split
  · exact .same .bump fun _ => .pure rfl
  · exact .unexpected due

/-- Reading a word that means itself. -/
theorem Blind.constant {value : Span → Expr} (hv : ∀ s, Bare.expr (value s) = value .zero) :
    Blind Bare.expr (Parser.constant value) (Parser.constant value) :=
  .peek fun t t' _ => .same .bump fun _ => .pure ((hv t'.span).trans (hv t.span).symm)

/-! ### Places -/

/-- Closing a node: what is kept of it does not depend on its span. -/
theorem Blind.close {m m' : Mark} {g g' : Span → α} (hg : ∀ s s', f (g' s') = f (g s)) :
    Blind f (do return g (← spanFrom m)) (do return g' (← spanFrom m')) :=
  fun _ _ _ _ _ _ hc => ⟨congrArg some (hg _ _), hc, Iff.rfl⟩

/-- Both have moved or none has. -/
theorem Blind.movedFrom {m m' : Mark} (hm : m'.count = m.count) :
    Blind id (Parser.movedFrom m) (Parser.movedFrom m') := by
  intro _ _ _ _ c c' hc
  refine ⟨?_, hc, Iff.rfl⟩
  show some (decide (m'.count < c'.count)) = some (decide (m.count < c.count))
  rw [hm, hc.count]

/-- Cutting out a fragment is no problem. -/
theorem quiet_errorAt (s : Span) (src : Source) (c : Cursor) :
    Quiet (Parser.errorAt s src c).notes := by
  show Quiet (if (Text.slice? src.text s.start s.stop).isSome then [] else [.breach (.slice s)])
  split
  · exact quiet_nil
  · exact quiet_nil

/-- Of a fragment nothing is kept but that it is one. -/
theorem Blind.errorAt (s s' : Span) :
    Blind Bare.errorNode (Parser.errorAt s) (Parser.errorAt s') :=
  fun _ _ _ _ _ _ hc => ⟨rfl, hc, iff_of_true (quiet_errorAt _ _ _) (quiet_errorAt _ _ _)⟩

/-- Fragments differ in their places and texts. -/
theorem Blind.errorFrom (m m' : Mark) :
    Blind Bare.errorNode (Parser.errorFrom m) (Parser.errorFrom m') :=
  fun _ _ hs hs' _ _ hc => Blind.errorAt _ _ hs hs' hc

/-! ### Loops -/

variable {u : σ → τ} {step step' : σ → Parser (σ ⊕ β)}

/-- A loop over rounds that are blind, with as many tokens to spend. -/
theorem Blind.rounds (hstep : ∀ s s', u s' = u s → Blind (Sum.map u h) (step s) (step' s'))
    (ts us : List Token) (hl : us.length = ts.length) (s s' : σ) (hs : u s' = u s) :
    Blind h (Parser.rounds step ts s) (Parser.rounds step' us s') := by
  induction ts generalizing us s s' with
  | nil =>
    obtain rfl := List.length_eq_zero_iff.1 hl
    rw [rounds_nil, rounds_nil]
    refine (hstep s s' hs).bind fun r r' hr => ?_
    rcases r with t | b <;> rcases r' with t' | b' <;> simp at hr
    · exact .breach _
    · exact .pure hr
  | cons t ts ih =>
    obtain ⟨t', us, rfl⟩ := List.exists_cons_of_length_eq_add_one hl
    rw [rounds_cons, rounds_cons]
    refine (hstep s s' hs).bind fun r r' hr => ?_
    rcases r with t | b <;> rcases r' with t' | b' <;> simp at hr
    · exact ih us (by simpa using hl) t t' hr
    · exact .pure hr

/-- Both loops have the same number of rounds. -/
theorem Blind.loop (hstep : ∀ s s', u s' = u s → Blind (Sum.map u h) (step s) (step' s'))
    {s s' : σ} (hs : u s' = u s) : Blind h (Parser.loop step s) (Parser.loop step' s') :=
  fun _ _ he he' _ _ hc =>
    Blind.rounds hstep _ _ (Lookahead.length_of_shapes hc.rest) s s' hs he he' hc

/-! ### Recovery

How much is cut out depends on the kinds of the tokens ahead. -/

variable {m m' : Mark}

/-- Both leave a place where nothing was read. -/
theorem Blind.leave (hm : m'.count = m.count) (keep : Option TokenKind) :
    Blind id (Parser.leave m keep) (Parser.leave m' keep) := by
  refine .same (.movedFrom hm) fun _ => .ite Iff.rfl (.pure rfl) (.peek fun t t' hk => ?_)
  rw [hk]
  exact .ite Iff.rfl (.pure rfl) .bump

/-- Both cut out as many tokens for an item. -/
theorem Blind.recoverItem (hm : m'.count = m.count) :
    Blind Bare.errorNode (Parser.recoverItem m) (Parser.recoverItem m') := by
  refine .same (.leave hm none) fun _ => .ahead fun ts us hshape => ?_
  rw [itemGap_congr (Lookahead.kinds_of_shapes hshape)]
  exact .same (.skip _) fun _ => .bind (.errorFrom m m') fun node node' hn =>
    .same (.emit _ _) fun _ => .pure hn

/-- Both do for an element. -/
theorem Blind.recoverElement (hm : m'.count = m.count) :
    Blind Bare.errorNode (Parser.recoverElement m) (Parser.recoverElement m') := by
  refine .same (.leave hm _) fun _ => .ahead fun ts us hshape => ?_
  rw [elementGap_congr (Lookahead.kinds_of_shapes hshape)]
  exact .same (.skip _) fun _ => .ite Iff.rfl (.errorFrom m m') .abort

/-- Both do for an entry. -/
theorem Blind.recoverEntry (hm : m'.count = m.count) :
    Blind Bare.errorNode (Parser.recoverEntry m) (Parser.recoverEntry m') := by
  refine .same (.leave hm _) fun _ => .ahead fun ts us hshape => ?_
  rw [entryGap_congr (Lookahead.kinds_of_shapes hshape)]
  exact .same (.skip _) fun _ => .ite Iff.rfl
    (.bind (.errorFrom m m') fun node node' hn => .same (.emit _ _) fun _ => .pure hn) .abort

/-- Both do below the last level. -/
theorem tooDeep_blind : Blind Bare.errorNode tooDeep tooDeep := by
  refine .bind .mark fun m m' hm => .ahead fun ts us hshape => ?_
  rw [fragment_congr (Lookahead.kinds_of_shapes hshape)]
  refine .same (.skip _) fun _ => .bind (.errorFrom m m') fun node node' hn => ?_
  refine .same (.emit _ _) fun _ => .same (.report _ _ _ _) fun _ => ?_
  exact .same (.movedFrom hm) fun _ => .ite Iff.rfl (.pure hn) .abort

end Parser
end Ndf
