/-
# What a run reads

For input of a known form the run of a parser can be followed step by step.  `Reads src p c a d ds`
says how it ends: with the value `a` at the place `d`, the problems `ds` being noted on the way;
`Fails` says so of a run without a value.  Both are composed along the definition of a parser, one
lemma for each combinator.  Events are left out.

`Cursor.beyond` is the place behind some tokens, so the place where a run ends is told by the tokens
that were read.
-/

import Ndf.Proofs.Parser.Spans

namespace Ndf

namespace Cursor

variable {c : Cursor} {us vs ts : List Token} {t : Token}

/-- The place behind these tokens, which come next. -/
def beyond (c : Cursor) (us : List Token) : Cursor :=
  ⟨c.rest.drop us.length, c.count + us.length, c.lastOf us, c.depth⟩

@[simp] theorem beyond_nil (c : Cursor) : c.beyond [] = c := rfl

/-- The place behind tokens and others. -/
theorem beyond_append (c : Cursor) (us vs : List Token) :
    c.beyond (us ++ vs) = (c.beyond us).beyond vs := by
  simp only [beyond, lastOf, List.length_append, List.drop_drop, Nat.add_assoc, mk.injEq, true_and,
    and_true, List.getLast?_append]
  cases vs.getLast? <;> rfl

/-- Behind one token first. -/
theorem beyond_cons (c : Cursor) (t : Token) (us : List Token) :
    c.beyond (t :: us) = (c.beyond [t]).beyond us := beyond_append c [t] us

/-- What follows the tokens is left. -/
theorem rest_beyond (h : c.rest = us ++ ts) : (c.beyond us).rest = ts := by
  rw [beyond, h, List.drop_left]

@[simp] theorem count_beyond : (c.beyond us).count = c.count + us.length := rfl

@[simp] theorem depth_beyond : (c.beyond us).depth = c.depth := rfl

/-- The last of the tokens is the last one read. -/
theorem last_beyond (h : us.getLast? = some t) : (c.beyond us).last = t.span := by
  rw [beyond, lastOf, h]
  rfl

/-- Tokens read one level deeper. -/
theorem up_beyond_down : (c.down.beyond us).up = c.beyond us := rfl

end Cursor

/-- Notes in front decide only whether the end of the source was reported. -/
theorem Note.diagnostics_split (ended : Bool) (a : List Note) : ∃ ended', ∀ b,
    Note.diagnostics ended (a ++ b) = Note.diagnostics ended a ++ Note.diagnostics ended' b := by
  induction a generalizing ended with
  | nil => exact ⟨ended, fun _ => rfl⟩
  | cons n a ih =>
    cases n with
    | problem d =>
      obtain ⟨ended', h⟩ := ih ended
      exact ⟨ended', fun b => congrArg (d :: ·) (h b)⟩
    | atEnd d =>
      obtain ⟨ended', h⟩ := ih true
      cases ended with
      | true => exact ⟨ended', h⟩
      | false => exact ⟨ended', fun b => congrArg (d :: ·) (h b)⟩
    | event e => exact ih ended
    | breach b => exact ih ended

namespace Parser

variable {α β σ : Type} {src : Source} {p q : Parser α} {f : α → Parser β} {a : α} {b : β}
  {c d e : Cursor} {ds es : List Diagnostic} {t : Token} {ts us : List Token}

/-- From `c` on the parser reads up to `d` and returns `a`, noting these problems. -/
structure Reads (src : Source) (p : Parser α) (c : Cursor) (a : α) (d : Cursor)
    (ds : List Diagnostic) : Prop where
  value : (p src c).value = some a
  cursor : (p src c).cursor = d
  found : ∀ ended, Note.diagnostics ended (p src c).notes = ds

/-- From `c` on the parser gives up at `d`, noting these problems. -/
structure Fails (src : Source) (p : Parser α) (c : Cursor) (d : Cursor) (ds : List Diagnostic) :
    Prop where
  value : (p src c).value = none
  cursor : (p src c).cursor = d
  found : ∀ ended, Note.diagnostics ended (p src c).notes = ds

/-- A run that is the same as another. -/
theorem Reads.congr {c' : Cursor} (h : p src c = q src c') (hq : Reads src q c' a d ds) :
    Reads src p c a d ds :=
  ⟨h ▸ hq.value, h ▸ hq.cursor, h ▸ hq.found⟩

/-- The same of a run that gives up. -/
theorem Fails.congr {c' : Cursor} (h : p src c = q src c') (hq : Fails src q c' d ds) :
    Fails src p c d ds :=
  ⟨h ▸ hq.value, h ▸ hq.cursor, h ▸ hq.found⟩

/-- The problems of notes behind each other. -/
theorem found_append {a b : List Note} (ha : ∀ ended, Note.diagnostics ended a = ds)
    (hb : ∀ ended, Note.diagnostics ended b = es) (ended : Bool) :
    Note.diagnostics ended (a ++ b) = ds ++ es := by
  obtain ⟨ended', h⟩ := Note.diagnostics_split ended a
  rw [h, ha, hb]

/-! ### Combinators -/

/-- Returning a value reads nothing. -/
theorem Reads.pure (a : α) : Reads src (pure a) c a c [] := ⟨rfl, rfl, fun _ => rfl⟩

/-- A run behind a run, with the problems of both. -/
theorem Reads.append (hp : Reads src p c a d ds) (hf : Reads src (f a) d b e es) :
    Reads src (p >>= f) c b e (ds ++ es) := by
  obtain ⟨hv, rfl, hn⟩ := hp
  obtain ⟨hv', rfl, hn'⟩ := hf
  have hrun := bind_of_some (f := f) hv
  exact ⟨by rw [hrun, hv'], by rw [hrun], by rw [hrun]; exact found_append hn hn'⟩

/-- Going on behind a run without problems. -/
theorem Reads.bind (hp : Reads src p c a d []) (hf : Reads src (f a) d b e es) :
    Reads src (p >>= f) c b e es := hp.append hf

/-- Ending without further problems. -/
theorem Reads.then (hp : Reads src p c a d ds) (hf : Reads src (f a) d b e []) :
    Reads src (p >>= f) c b e ds := by
  have := hp.append hf
  rwa [List.append_nil] at this

/-- Behind a run without problems another one may give up. -/
theorem Reads.fails (hp : Reads src p c a d []) (hf : Fails src (f a) d e es) :
    Fails src (p >>= f) c e es := by
  obtain ⟨hv, rfl, hn⟩ := hp
  obtain ⟨hv', rfl, hn'⟩ := hf
  have hrun := bind_of_some (f := f) hv
  exact ⟨by rw [hrun, hv'], by rw [hrun], by rw [hrun]; exact found_append hn hn'⟩

/-- What gives up goes no further. -/
theorem Fails.bind (hp : Fails src p c d ds) (f : α → Parser β) : Fails src (p >>= f) c d ds := by
  have hrun := bind_of_none (f := f) hp.value
  exact ⟨by rw [hrun], by rw [hrun, hp.cursor], by rw [hrun]; exact hp.found⟩

/-- A function of the value. -/
theorem Reads.map (g : α → β) (hp : Reads src p c a d ds) : Reads src (g <$> p) c (g a) d ds :=
  hp.then (f := fun a => Pure.pure (g a)) (.pure (g a))

/-- There is no value where the run gives up. -/
theorem Fails.map (g : α → β) (hp : Fails src p c d ds) : Fails src (g <$> p) c d ds := hp.bind _

/-- The condition holds. -/
theorem Reads.ite_pos {P : Prop} [Decidable P] (h : P) (hp : Reads src p c a d ds) :
    Reads src (if P then p else q) c a d ds := by
  rwa [if_pos h]

/-- It does not. -/
theorem Reads.ite_neg {P : Prop} [Decidable P] (h : ¬ P) (hq : Reads src q c a d ds) :
    Reads src (if P then p else q) c a d ds := by
  rwa [if_neg h]

/-- It does not, and the other branch gives up. -/
theorem Fails.ite_neg {P : Prop} [Decidable P] (h : ¬ P) (hq : Fails src q c d ds) :
    Fails src (if P then p else q) c d ds := by
  rwa [if_neg h]

/-- A mark is set where the run starts. -/
theorem Reads.mark {f : Mark → Parser β} (h : Reads src (f (Mark.here src c)) c b d ds) :
    Reads src (Parser.mark >>= f) c b d ds :=
  .congr (q := f (Mark.here src c)) rfl h

/-- The same where it gives up. -/
theorem Fails.mark {f : Mark → Parser β} (h : Fails src (f (Mark.here src c)) c d ds) :
    Fails src (Parser.mark >>= f) c d ds :=
  .congr (q := f (Mark.here src c)) rfl h

/-- The next token is known. -/
theorem Reads.peek {f : Token → Parser β} (h : Reads src (f (c.rest.headD src.stop)) c b d ds) :
    Reads src (Parser.peek >>= f) c b d ds :=
  .congr (q := f (c.rest.headD src.stop)) rfl h

/-- All tokens left are known. -/
theorem Reads.ahead {f : List Token → Parser β} (h : Reads src (f c.rest) c b d ds) :
    Reads src (Parser.ahead >>= f) c b d ds :=
  .congr (q := f c.rest) rfl h

/-- The same where the run gives up. -/
theorem Fails.ahead {f : List Token → Parser β} (h : Fails src (f c.rest) c d ds) :
    Fails src (Parser.ahead >>= f) c d ds :=
  .congr (q := f c.rest) rfl h

/-- The span of a node is taken last. -/
theorem Reads.close {m : Mark} {s : Span} (h : m.upTo c = s) (g : Span → α) :
    Reads src (spanFrom m >>= fun s => Pure.pure (g s)) c (g s) c [] :=
  ⟨congrArg (fun s => some (g s)) h, rfl, fun _ => rfl⟩

/-- Recovery goes on where the run gave up. -/
theorem Reads.recover (hp : Fails src p c d ds) (hq : Reads src q d a e es) :
    Reads src (orRecover p q) c a e (ds ++ es) := by
  obtain ⟨hv, rfl, hn⟩ := hp
  obtain ⟨hv', rfl, hn'⟩ := hq
  have hrun := orRecover_of_none (q := q) hv
  exact ⟨by rw [hrun, hv'], by rw [hrun], by rw [hrun]; exact found_append hn hn'⟩

/-- There is none where it did not. -/
theorem Reads.orRecover (hp : Reads src p c a d ds) (q : Parser α) :
    Reads src (orRecover p q) c a d ds :=
  .congr (orRecover_of_some hp.value) hp

/-- Reading one level deeper. -/
theorem Reads.deeper {deep : Parser α} (h : c.depth < maxNesting)
    (hp : Reads src p c.down a d ds) (hd : d.depth ≠ 0) :
    Reads src (nested deep p) c a d.up ds := by
  have hrun : Parser.nested deep p src c =
      ⟨(p src c.down).value, (p src c.down).cursor.up, (p src c.down).notes⟩ := by
    rw [Parser.nested, if_pos h, Outcome.up, hp.cursor, if_neg hd]
  exact ⟨by rw [hrun, hp.value], by rw [hrun, hp.cursor], by rw [hrun]; exact hp.found⟩

/-- A run one level deeper. -/
theorem Reads.nested {deep : Parser α} (h : c.depth < maxNesting)
    (hp : Reads src p c.down a (c.down.beyond us) ds) :
    Reads src (nested deep p) c a (c.beyond us) ds :=
  hp.deeper h (Nat.succ_ne_zero _)

/-- The same where it gives up. -/
theorem Fails.nested {deep : Parser α} (h : c.depth < maxNesting)
    (hp : Fails src p c.down (c.down.beyond us) ds) :
    Fails src (Parser.nested deep p) c (c.beyond us) ds := by
  have hdepth : (p src c.down).cursor.depth ≠ 0 := by
    rw [hp.cursor]
    exact Nat.succ_ne_zero _
  have hrun : Parser.nested deep p src c =
      ⟨(p src c.down).value, (p src c.down).cursor.up, (p src c.down).notes⟩ := by
    rw [Parser.nested, if_pos h, Outcome.up, if_neg hdepth]
  refine ⟨by rw [hrun, hp.value], ?_, by rw [hrun]; exact hp.found⟩
  rw [hrun, hp.cursor, Cursor.up_beyond_down]

/-! ### Tokens -/

/-- The next token is taken. -/
theorem Reads.bump (h : c.rest = t :: ts) : Reads src bump c () (c.beyond [t]) [] := by
  rw [Cursor.beyond, h]
  exact ⟨by rw [bump_run h], by rw [bump_run h]; rfl, fun _ => by rw [bump_run h]; rfl⟩

/-- Reading half a token leaves the other half. -/
theorem Reads.bumpHalf (h : c.rest = t :: ts) :
    Reads src bumpHalf c () ⟨t.secondHalf :: ts, c.count + 1, t.firstHalf.span, c.depth⟩ [] := by
  unfold Parser.bumpHalf
  constructor <;> simp only [h]
  exact fun _ => rfl

/-- So are the next ones. -/
theorem Reads.skip (h : c.rest = us ++ ts) : Reads src (skip us.length) c () (c.beyond us) [] := by
  induction us generalizing c with
  | nil => exact .pure ()
  | cons t us ih =>
    rw [Cursor.beyond_cons]
    exact .bind (.bump h) (ih (Cursor.rest_beyond h))

/-- The next token is the first one left. -/
theorem headD_of_rest (h : c.rest = t :: ts) : c.rest.headD src.stop = t := by
  rw [h, List.headD_cons]

/-- A token is taken if it is looked for. -/
theorem Reads.eat (h : c.rest = t :: ts) : Reads src (eat t.kind) c true (c.beyond [t]) [] := by
  refine .congr (eat_run t.kind) ?_
  rw [if_pos (by rw [headD_of_rest h, beq_self_eq_true])]
  exact .bind (.bump h) (.pure true)

/-- Another one is left. -/
theorem Reads.eat_other {kind : TokenKind} (h : (c.rest.headD src.stop).kind ≠ kind) :
    Reads src (Parser.eat kind) c false c [] := by
  refine .congr (eat_run kind) ?_
  rw [if_neg (by rwa [beq_iff_eq])]
  exact .pure false

/-- The token asked for is there. -/
theorem Reads.expect {kind : TokenKind} (h : c.rest = t :: ts) (hk : t.kind = kind) (due : String) :
    Reads src (expect kind due) c () (c.beyond [t]) [] := by
  refine .congr (expect_run kind due) ?_
  rw [if_pos (by rw [headD_of_rest h, hk, beq_self_eq_true])]
  exact .bump h

/-- So is the keyword. -/
theorem Reads.expectKeyword {keyword : Keyword} (h : c.rest = t :: ts)
    (hk : t.kind.keyword? = some keyword) :
    Reads src (expectKeyword keyword) c () (c.beyond [t]) [] := by
  refine .congr (expectKeyword_run keyword) ?_
  rw [if_pos (by rw [headD_of_rest h, hk, beq_self_eq_true])]
  exact .bump h

/-- So is a name, of any class. -/
theorem Reads.name {text : String} {wordClass : WordClass} (h : c.rest = t :: ts)
    (hk : t.kind = .word text wordClass) (due : String) :
    Reads src (name due) c ⟨text, t.span⟩ (c.beyond [t]) [] := by
  refine .congr (name_run_word (by rw [headD_of_rest h, hk]) due) ?_
  rw [headD_of_rest h]
  exact .bind (.bump h) (.pure _)

/-- An error node has the text that its span covers. -/
theorem Reads.errorFrom {m : Mark} {text : List Char}
    (h : Text.slice? src.text (m.upTo c).start (m.upTo c).stop = some text) :
    Reads src (errorFrom m) c ⟨m.upTo c, String.ofList text⟩ c [] := by
  refine ⟨?_, rfl, fun _ => ?_⟩
  · show some (⟨m.upTo c, String.ofList ((Text.slice? src.text (m.upTo c).start
      (m.upTo c).stop).getD [])⟩ : ErrorNode) = _
    rw [h]
    rfl
  · show Note.diagnostics _ ([] ++ if (Text.slice? src.text (m.upTo c).start
      (m.upTo c).stop).isSome then [] else _) = _
    rw [h]
    rfl

/-- An event is no problem. -/
theorem Reads.emit (event : ParseEvent) : Reads src (emit event) c () c [] :=
  ⟨rfl, rfl, fun _ => rfl⟩

/-- A problem is noted and nothing is read. -/
theorem Reads.report (cause : Diagnostic.Cause) (s : Span) :
    Reads src (report cause s) c () c [.ofCause cause s] :=
  ⟨rfl, rfl, fun _ => rfl⟩

/-- Something was read since the mark. -/
theorem Reads.movedFrom {m : Mark} (h : m.count < c.count) :
    Reads src (movedFrom m) c true c [] :=
  ⟨congrArg some (decide_eq_true h), rfl, fun _ => rfl⟩

/-! ### Loops -/

variable {step : σ → Parser (σ ⊕ β)} {s s' : σ}

/-- A round that goes on, and the rounds behind it. -/
theorem Reads.loop_next (ha : Advances step) (he : src.Ended)
    (hs : Reads src (step s) c (.inl s') d ds)
    (hl : Reads src (loop step s') d b e es) :
    Reads src (loop step s) c b e (ds ++ es) :=
  .congr (loop_eq ha he s c) (hs.append hl)

/-- The round that ends the loop. -/
theorem Reads.loop_end (ha : Advances step) (he : src.Ended)
    (hs : Reads src (step s) c (.inr b) d ds) : Reads src (loop step s) c b d ds :=
  .congr (loop_eq ha he s c) (hs.then (f := again (loop step)) (.pure b))

/-! ### The span of what is read -/

/-- The span of some tokens goes from the first to the last. -/
theorem upTo_beyond {first last : Token} (h : c.rest = us ++ ts) (hf : us.head? = some first)
    (hl : us.getLast? = some last) :
    (Mark.here src c).upTo (c.beyond us) = first.span.through last.span := by
  have hpos : 0 < us.length := by
    cases us with
    | nil => cases hf
    | cons t us => exact Nat.succ_pos _
  have hhead : c.rest.headD src.stop = first := by
    rw [h]
    cases us with
    | nil => cases hf
    | cons t us => exact Option.some.inj hf
  have hcount : (Mark.here src c).count < (c.beyond us).count := Nat.lt_add_of_pos_right hpos
  rw [Mark.upTo, if_pos hcount, Cursor.last_beyond hl, Mark.here, hhead]

end Parser
end Ndf
