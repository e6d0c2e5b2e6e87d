/-
# Parsers that lay nodes in a row

`Lays S out p` says that what `p` returns has the nodes `out`, and that they stand in a row in the
stretch that `p` read.  `Adds S lo pre out p` says how a row grows: where the nodes `pre` stand in a
row from offset `lo` on, up to what was read last, the nodes `out` stand in one after `p`.  A
sequence adds the nodes of its first part to those before (`Adds.bind`), and a node is laid over its
parts once all of them are read (`Lays.node`).

Besides, the problems that such a parser notes all stand where something was read, or where reading
stopped (`Scene.Honest`).

Both start between two tokens.  A list of type parameters may stop in the middle of a `>=`, so the
facts about one run (`LaysAt`, `AddsAt`) do not say where it stops.
-/

import Ndf.Proofs.Nodes.Row

namespace Ndf

/-- Every problem in the notes has a span from one place to another. -/
def Scene.Honest (S : Scene) (notes : List Note) : Prop :=
  ∀ d, .problem d ∈ notes → S.Placed d.span

namespace Scene

variable {S : Scene} {notes more : List Note} {c : Cursor}

/-- No notes are honest. -/
theorem Honest.nil : S.Honest [] := fun _ h => nomatch h

/-- Honest notes behind honest ones are honest. -/
theorem Honest.append (h : S.Honest notes) (h' : S.Honest more) : S.Honest (notes ++ more) :=
  fun d hd => (List.mem_append.1 hd).elim (h d) (h' d)

/-- Notes of events alone. -/
theorem Honest.events (h : ∀ note ∈ notes, ∃ e, note = .event e) : S.Honest notes := by
  intro d hd
  obtain ⟨e, he⟩ := h _ hd
  cases he

/-- A problem that stands where something was read is honest. -/
theorem Honest.problem {cause : Diagnostic.Cause} {s : Span} (h : S.Placed s) :
    S.Honest [.problem (.ofCause cause s)] := by
  intro d hd
  obtain rfl : d = .ofCause cause s := by simpa using hd
  exact h

/-- A token that is left stands between two places. -/
theorem placed_head (hc : c.On S.tokens) {t : Token} {ts : List Token} (hr : c.rest = t :: ts) :
    S.Placed t.span := by
  refine ⟨c, ⟨ts, c.count + 1, t.span, c.depth⟩, hc, .inl ⟨[t], .one hr⟩, ?_⟩
  rw [Parser.Mark.upTo, Parser.Mark.here, hr, List.headD_cons, if_pos (Nat.lt_succ_self _),
    Span.through, Nat.max_self]

/-- The next token stands between two places, unless the input ends. -/
theorem placed_next (hc : c.On S.tokens) (hk : (c.rest.headD S.source.stop).kind ≠ .eof) :
    S.Placed (c.rest.headD S.source.stop).span := by
  obtain ⟨t, ts, hr, -⟩ := Parser.exists_rest S.ended hk
  rw [hr, List.headD_cons]
  exact placed_head hc hr

/-- A problem at the next token. -/
theorem honest_notesAt (hc : c.On S.tokens) (cause : Diagnostic.Cause) :
    S.Honest (Parser.notesAt (c.rest.headD S.source.stop) cause) := by
  have key (hk : (c.rest.headD S.source.stop).kind ≠ .eof) :
      S.Honest [.problem (.ofCause cause (c.rest.headD S.source.stop).span)] :=
    .problem (placed_next hc hk)
  unfold Parser.notesAt
  split
  · intro d hd
    simp at hd
  · rename_i e hk
    split
    · exact .nil
    · exact key (by rw [hk]; simp)
  · exact key ‹_›

end Scene

namespace Parser

variable {α β σ : Type} {S : Scene} {c : Cursor} {lo : Nat} {pre : List Node}
  {out : α → List Node} {more : β → List Node} {p q : Parser α} {k : α → Parser β}

/-- The nodes of what one run returns stand in a row from an offset on, up to what was read last. -/
structure Laid (S : Scene) (lo : Nat) (out : α → List Node) (o : Outcome α) : Prop where
  honest : S.Honest o.notes
  row : ∀ a, o.value = some a → S.Row lo o.cursor.last.stop (out a)

/-- Returned values have their nodes in a row, in the stretch that was read. -/
structure Lays (S : Scene) (out : α → List Node) (p : Parser α) : Prop where
  steady : Steady p
  rows : ∀ c, S.Whole c → Laid S (S.next c) out (p S.source c)

/-- How a row grows from one place on. -/
def AddsAt (S : Scene) (c : Cursor) (lo : Nat) (pre : List Node) (out : α → List Node)
    (p : Parser α) : Prop :=
  lo ≤ S.next c → S.Row lo c.last.stop pre → Laid S lo out (p S.source c)

/-- How a row grows. -/
def Adds (S : Scene) (lo : Nat) (pre : List Node) (out : α → List Node) (p : Parser α) : Prop :=
  ∀ c, S.Whole c → AddsAt S c lo pre out p

/-! ### Combinators -/

/-- What adds from all places adds from this one. -/
theorem AddsAt.of (hc : S.Whole c) (hp : Adds S lo pre out p) : AddsAt S c lo pre out p := hp c hc

/-- A row of its own, with nothing before it. -/
theorem AddsAt.alone (hp : Laid S (S.next c) out (p S.source c)) : AddsAt S c lo [] out p :=
  fun hlo _ => ⟨hp.honest, fun a ha => (hp.row a ha).mono hlo (Nat.le_refl _)⟩

/-- Where a row was laid, reading stands between two tokens. -/
theorem Lays.whole (hp : Lays S out p) (hc : S.Whole c) {a : α}
    (ha : (p S.source c).value = some a) : S.Whole (p S.source c).cursor :=
  let ⟨_, hu⟩ := hp.steady.lands S.ended c (ha ▸ Option.some_ne_none a)
  hc.passes hu

/-- **The nodes of the first part are added to those before.** -/
theorem AddsAt.bind (hc : S.Whole c) (hreach : c.Reaches (p S.source c).cursor)
    (hp : Laid S (S.next c) out (p S.source c))
    (hk : ∀ a, (p S.source c).value = some a →
      AddsAt S (p S.source c).cursor lo (pre ++ out a) more (k a)) :
    AddsAt S c lo pre more (p >>= k) := by
  intro hlo hpre
  cases hv : (p S.source c).value with
  | none =>
    rw [bind_of_none hv]
    exact ⟨hp.honest, fun b hb => nomatch hb⟩
  | some a =>
    have hrow : S.Row lo (p S.source c).cursor.last.stop (pre ++ out a) :=
      hpre.append (hp.row a hv) (Scene.last_le_next hc.on) hlo (Scene.last_le_last hc hreach)
    obtain ⟨honest, row⟩ := hk a hv (Nat.le_trans hlo (Scene.next_le hc.on hreach)) hrow
    rw [bind_of_some hv]
    exact ⟨hp.honest.append honest, row⟩

/-- A sequence adds the nodes of its first part to those before. -/
theorem Adds.bind (hp : Lays S out p) (hk : ∀ a, Adds S lo (pre ++ out a) more (k a)) :
    Adds S lo pre more (p >>= k) := fun c hc =>
  .bind hc (hp.steady.moves S.ended c) (hp.rows c hc) fun a ha => hk a _ (hp.whole hc ha)

/-- The first part changes the nodes before it. -/
theorem Adds.seq {mid : α → List Node} (hs : Steady p) (hp : Adds S lo pre mid p)
    (hk : ∀ a, Adds S lo (mid a) more (k a)) : Adds S lo pre more (p >>= k) := by
  intro c hc hlo hpre
  obtain ⟨honest, row⟩ := hp c hc hlo hpre
  cases hv : (p S.source c).value with
  | none =>
    rw [bind_of_none hv]
    exact ⟨honest, fun b hb => nomatch hb⟩
  | some a =>
    obtain ⟨u, hu⟩ := hs.lands S.ended c (hv ▸ Option.some_ne_none a)
    have h := hk a _ (hc.passes hu) (Nat.le_trans hlo (Scene.next_le hc.on hu.reaches)) (row a hv)
    rw [bind_of_some hv]
    exact ⟨honest.append h.honest, h.row⟩

/-- The first part has no nodes. -/
theorem Adds.after (hp : Lays S (fun _ => []) p) (hk : ∀ a, Adds S lo pre more (k a)) :
    Adds S lo pre more (p >>= k) :=
  .bind hp fun a => by
    rw [List.append_nil]
    exact hk a

/-- Returning a value adds nothing. -/
theorem AddsAt.pure {a : α} (h : out a = pre) : AddsAt S c lo pre out (Pure.pure a) := by
  intro _ hpre
  refine ⟨.nil, fun b hb => ?_⟩
  obtain rfl : a = b := by injection hb
  rw [h]
  exact hpre

/-- The same from all places. -/
theorem Adds.pure {a : α} (h : out a = pre) : Adds S lo pre out (Pure.pure a) :=
  fun _ _ => .pure h

/-- The span is taken last. -/
theorem AddsAt.spanFrom {m : Mark} {v : Span → α} (h : ∀ s, out (v s) = pre) :
    AddsAt S c lo pre out (Parser.spanFrom m >>= fun s => Pure.pure (v s)) := by
  intro hlo hpre
  rw [spanFrom_bind]
  exact AddsAt.pure (h _) hlo hpre

/-- Closing a node adds nothing either. -/
theorem Adds.spanFrom {m : Mark} {v : Span → α} (h : ∀ s, out (v s) = pre) :
    Adds S lo pre out (Parser.spanFrom m >>= fun s => Pure.pure (v s)) := fun _ _ => .spanFrom h

/-- Of two branches only the one taken counts. -/
theorem Adds.ite {P : Prop} [Decidable P] (hp : Adds S lo pre out p) (hq : Adds S lo pre out q) :
    Adds S lo pre out (if P then p else q) := by
  split
  · exact hp
  · exact hq

/-- The same from one place. -/
theorem AddsAt.ite {P : Prop} [Decidable P] (hp : AddsAt S c lo pre out p)
    (hq : AddsAt S c lo pre out q) : AddsAt S c lo pre out (if P then p else q) := by
  split
  · exact hp
  · exact hq

/-- What is added may depend on the next token. -/
theorem Adds.peek {k : Token → Parser β} (hk : ∀ c, S.Whole c →
    AddsAt S c lo pre more (k (c.rest.headD S.source.stop))) :
    Adds S lo pre more (Parser.peek >>= k) := hk

/-- And on a mark set in front of it. -/
theorem AddsAt.markPeek {k : Mark → Token → Parser β}
    (hk : AddsAt S c lo pre more (k (.here S.source c) (c.rest.headD S.source.stop))) :
    AddsAt S c lo pre more (Parser.mark >>= fun m => Parser.peek >>= k m) := hk

/-- The nodes of a parser that is known to be steady. -/
theorem Lays.of (hs : Steady p) (hp : ∀ lo, Adds S lo [] out p) : Lays S out p :=
  ⟨hs, fun c hc => hp (S.next c) c hc (Nat.le_refl _) .nil⟩

/-- Nodes alone, with nothing before them. -/
theorem Lays.adds (hp : Lays S out p) : Adds S lo [] out p := fun c hc => .alone (hp.rows c hc)

/-- A function of the value that keeps its nodes keeps the row. -/
theorem Laid.map {h : α → β} (hp : Laid S lo out (p S.source c)) (hh : ∀ a, more (h a) = out a) :
    Laid S lo more ((h <$> p) S.source c) := by
  rw [map_run]
  refine ⟨hp.honest, fun b hb => ?_⟩
  obtain ⟨a, ha, rfl⟩ := Option.map_eq_some_iff.1 hb
  rw [hh]
  exact hp.row a ha

/-- The same of all runs. -/
theorem Lays.map {h : α → β} (hp : Lays S out p) (hh : ∀ a, more (h a) = out a) :
    Lays S more (h <$> p) :=
  ⟨.map h hp.steady, fun c hc => (hp.rows c hc).map hh⟩

/-- Of two branches only the one taken counts. -/
theorem Lays.ite {P : Prop} [Decidable P] (hp : Lays S out p) (hq : Lays S out q) :
    Lays S out (if P then p else q) := by
  split
  · exact hp
  · exact hq

/-- What is laid may depend on the tokens ahead. -/
theorem Lays.ahead {k : List Token → Parser β} (hk : ∀ ts, Lays S more (k ts)) :
    Lays S more (Parser.ahead >>= k) :=
  ⟨.bind Still.ahead.steady fun ts => (hk ts).steady, fun c hc => (hk c.rest).rows c hc⟩

/-- **A node is laid over its parts.**  A type may stop in the middle of a token. -/
theorem Laid.node {node : α → Node} {span : α → Span} (hc : S.Whole c) (hs : Sound p)
    (he : EatsAt S.source c p) (hspan : SpansAt S.source c span p)
    (hnode : ∀ a, (node a).span = span a) (hl : ∀ a, (p S.source c).value = some a →
      (∃ u, c.Passes u (p S.source c).cursor) ∨ (node a).isType = true)
    (hp : Laid S (S.next c) (fun a => (node a).parts) (p S.source c)) :
    Laid S (S.next c) (fun a => [node a]) (p S.source c) := by
  refine ⟨hp.honest, fun a ha => ?_⟩
  have hne : (p S.source c).value ≠ none := ha ▸ Option.some_ne_none a
  have hreach := hs.moves S.ended c
  refine .node hc ?_ (hreach.count_lt_iff.2 (he hne)) ((hnode a).trans (hspan a ha)) (hp.row a ha)
  rcases hl a ha with h | h
  · exact .inl h
  · exact hreach.imp id fun hsplit => ⟨h, hsplit⟩

/-- A node behind which reading stops between two tokens. -/
theorem AddsAt.node {node : α → Node} {span : α → Span} (hc : S.Whole c) (hs : Steady p)
    (he : EatsAt S.source c p) (hspan : SpansAt S.source c span p)
    (hnode : ∀ a, (node a).span = span a)
    (hp : AddsAt S c (S.next c) [] (fun a => (node a).parts) p) :
    AddsAt S c lo [] (fun a => [node a]) p :=
  .alone (.node hc hs.sound he hspan hnode
    (fun _ ha => .inl (hs.lands S.ended c (ha ▸ Option.some_ne_none _)))
    (hp (Nat.le_refl _) .nil))

/-- A node is laid over its parts once all of them are read. -/
theorem Lays.node {node : α → Node} {span : α → Span} (hs : Steady p) (he : Eats p)
    (hspan : Spans span p) (hnode : ∀ a, (node a).span = span a)
    (hp : ∀ lo, Adds S lo [] (fun a => (node a).parts) p) : Lays S (fun a => [node a]) p :=
  .of hs fun _ c hc => .node hc hs (he S.ended c) (hspan S.ended c) hnode (hp _ c hc)

/-! ### What has no nodes -/

/-- A parser whose values have no nodes. -/
theorem Lays.bare (hs : Steady p)
    (hn : ∀ c, S.Whole c → S.Honest (p S.source c).notes) : Lays S (fun _ => []) p :=
  ⟨hs, fun c hc => ⟨hn c hc, fun _ _ => .nil⟩⟩

/-- Setting a mark lays nothing. -/
theorem Lays.mark : Lays S (fun _ => []) Parser.mark := .bare Still.mark.steady fun _ _ => .nil

/-- Looking at the next token lays nothing. -/
theorem Lays.look : Lays S (fun _ => []) Parser.peek := .bare Still.peek.steady fun _ _ => .nil

/-- Looking further lays nothing. -/
theorem Lays.see : Lays S (fun _ => []) Parser.ahead := .bare Still.ahead.steady fun _ _ => .nil

/-- Taking a span lays nothing. -/
theorem Lays.spanFrom (m : Mark) : Lays S (fun _ => []) (Parser.spanFrom m) :=
  .bare (Still.spanFrom m).steady fun _ _ => .nil

/-- Emitting an event lays nothing. -/
theorem Lays.emit (e : ParseEvent) : Lays S (fun _ => []) (Parser.emit e) :=
  .bare (Still.emit e).steady fun _ _ => .events fun _ h => ⟨e, List.mem_singleton.1 h⟩

/-- Reading a token lays nothing by itself. -/
theorem Lays.bump : Lays S (fun _ => []) Parser.bump :=
  .bare .bump fun c _ => by
    rw [bump_notes]
    exact .nil

/-- A fragment has no nodes, and to cut it out is no problem. -/
theorem Lays.errorFrom (m : Mark) : Lays S (fun _ => []) (Parser.errorFrom m) := by
  refine .bare (Still.errorFrom m).steady fun c _ d hd => ?_
  have hnotes : (Parser.errorFrom m S.source c).notes =
      if (Text.slice? S.source.text (m.upTo c).start (m.upTo c).stop).isSome then []
        else [.breach (.slice (m.upTo c))] := rfl
  rw [hnotes] at hd
  split at hd <;> simp at hd

/-- Giving up lays nothing, whatever was noted. -/
theorem Laid.abort {d : Cursor} {notes : List Note} (h : S.Honest notes) :
    Laid S lo out ⟨none, d, notes⟩ := ⟨h, fun _ ha => nomatch ha⟩

/-- The problem of whoever gives up stands at the next token. -/
theorem laid_unexpected (hc : c.On S.tokens) (due : String) :
    Laid S lo out ((Parser.unexpected due : Parser α) S.source c) := by
  have hrun : (Parser.unexpected due : Parser α) S.source c =
      ⟨none, c, notesAt (c.rest.headD S.source.stop)
        (.expected due (c.rest.headD S.source.stop).kind.name) ++ []⟩ := rfl
  rw [hrun, List.append_nil]
  exact .abort (Scene.honest_notesAt hc _)

/-- Giving up at the next token. -/
theorem Lays.abortHere (cause : Token → Diagnostic.Cause) : Lays S out
    (do reportHere (cause (← Parser.peek)); (Parser.abort : Parser α)) := by
  refine ⟨.abortHere cause, fun c hc => ?_⟩
  have hrun : (do reportHere (cause (← Parser.peek)); Parser.abort : Parser α) S.source c =
      ⟨none, c, notesAt (c.rest.headD S.source.stop) (cause (c.rest.headD S.source.stop)) ++ []⟩ :=
    rfl
  rw [hrun, List.append_nil]
  exact .abort (Scene.honest_notesAt hc.on _)

/-- So giving up there is honest from all places. -/
theorem Lays.unexpected (due : String) : Lays S out (Parser.unexpected due : Parser α) :=
  .abortHere fun t => .expected due t.kind.name

/-- Where a parser gives up nothing is added. -/
theorem Adds.unexpected (due : String) : Adds S lo pre out (Parser.unexpected due : Parser α) :=
  fun _ hc _ _ => laid_unexpected hc.on due

/-- Giving up adds nothing. -/
theorem Adds.abort : Adds S lo pre out (Parser.abort : Parser α) := fun _ _ _ _ => .abort .nil

/-- Asking for a sign lays nothing. -/
theorem Lays.sees (kind : TokenKind) : Lays S (fun _ => []) (Parser.sees kind) :=
  .bare (Still.sees kind).steady fun _ _ => .nil

/-- Trying for one lays nothing. -/
theorem Lays.eat (kind : TokenKind) : Lays S (fun _ => []) (Parser.eat kind) := by
  refine .of (.eat kind) fun _ => .after (.sees kind) fun _ => ?_
  exact .ite (.after .bump fun _ => .pure rfl) (.pure rfl)

/-- Nor does a sign that is due. -/
theorem Lays.expect (kind : TokenKind) (due : String) :
    Lays S (fun _ => []) (Parser.expect kind due) :=
  .of (.expect kind due) fun _ => .after (.sees kind) fun _ =>
    .ite Lays.bump.adds (.unexpected due)

/-- Nor does a keyword. -/
theorem Lays.expectKeyword (keyword : Keyword) :
    Lays S (fun _ => []) (Parser.expectKeyword keyword) :=
  .of (.expectKeyword keyword) fun _ => .after .look fun _ => .ite Lays.bump.adds (.unexpected _)

/-- A problem in a place that was read. -/
theorem AddsAt.report {q : Parser β} {s : Span} (cause : Diagnostic.Cause) (hs : S.Placed s)
    (hq : AddsAt S c lo pre more q) :
    AddsAt S c lo pre more (Parser.report cause s >>= fun _ => q) := by
  intro hlo hpre
  have h := hq hlo hpre
  exact ⟨(Scene.Honest.problem hs).append h.honest, h.row⟩

/-! ### Single tokens -/

/-- A node for a single token. -/
theorem AddsAt.token {v : α} (hc : S.Whole c) (hr : c.rest ≠ [])
    (hv : out v = [Node.leaf (c.rest.headD S.source.stop).span]) :
    AddsAt S c lo [] out (Parser.bump >>= fun _ => Pure.pure v) := by
  obtain ⟨t, ts, hr⟩ := List.exists_cons_of_ne_nil hr
  have hpass : c.Passes [t] ⟨ts, c.count + 1, t.span, c.depth⟩ := .one hr
  rw [hr, List.headD_cons] at hv
  refine .alone ?_
  rw [bind_of_some bump_value, bump_run hr]
  refine ⟨.nil, fun a ha => ?_⟩
  obtain rfl : v = a := by injection ha
  have hspan : t.span = (Mark.here S.source c).upTo ⟨ts, c.count + 1, t.span, c.depth⟩ := by
    rw [Mark.upTo, Mark.here, hr, List.headD_cons, if_pos (Nat.lt_succ_self _), Span.through,
      Nat.max_self]
  rw [hv]
  exact .node hc (.inl ⟨[t], hpass⟩) (Nat.lt_succ_self _) hspan .nil

/-- A name is a node of one token. -/
theorem Lays.name (due : String) : Lays S (fun n => [Outline.name n]) (Parser.name due) := by
  refine ⟨.name due, fun c hc => ?_⟩
  cases hk : (c.rest.headD S.source.stop).kind with
  | word text wordClass =>
    rw [name_run_word hk]
    exact AddsAt.token hc (rest_ne_nil S.ended (by rw [hk]; simp)) rfl (Nat.le_refl _) .nil
  | _ =>
    rw [name_run_other (by rw [hk]; rfl)]
    exact laid_unexpected hc.on due

/-! ### Levels and loops -/

/-- A level deeper the same is laid. -/
theorem Laid.nested {deep : Parser α} (hd : Laid S (S.next c) out (deep S.source c)) (hs : Sound p)
    (hp : Laid S (S.next c) out (p S.source c.down)) :
    Laid S (S.next c) out (Parser.nested deep p S.source c) := by
  rcases Nat.lt_or_ge c.depth maxNesting with hlt | hge
  · rw [nested_of_lt hs S.ended hlt]
    exact ⟨hp.honest, hp.row⟩
  · rw [nested_of_le hge]
    exact hd

/-- The same of all runs. -/
theorem Lays.nested {deep : Parser α} (hd : Lays S out deep) (hp : Lays S out p) :
    Lays S out (Parser.nested deep p) :=
  ⟨.nested hd.steady hp.steady, fun c hc =>
    .nested (hd.rows c hc) hp.steady.sound (hp.rows c.down hc.down)⟩

/-- **A row grows round by round.**  A round that goes on stops between two tokens. -/
theorem Adds.rounds {step : σ → Parser (σ ⊕ β)} (st : σ → List Node) (ha : Advances step)
    (hs : ∀ s, Sound (step s))
    (hl : ∀ s s' c, S.Whole c → (step s S.source c).value = some (.inl s') →
      S.Whole (step s S.source c).cursor)
    (hstep : ∀ s, Adds S lo (st s) (Sum.elim st more) (step s)) (s : σ) :
    Adds S lo (st s) more (Parser.loop step s) := by
  intro c
  refine loop_rec ha S.ended (P := fun s c o => S.Whole c → lo ≤ S.next c →
    S.Row lo c.last.stop (st s) → Laid S lo more o) (fun s c ih hc hlo hpre => ?_) s c
  obtain ⟨honest, row⟩ := hstep s c hc hlo hpre
  cases hv : (step s S.source c).value with
  | none =>
    rw [bind_of_none hv]
    exact .abort honest
  | some r =>
    rw [bind_of_some hv]
    cases r with
    | inl s' =>
      have hnext := Scene.next_le hc.on ((hs s).moves S.ended c)
      have h := ih s' hv (hl s s' c hc hv) (Nat.le_trans hlo hnext) (row _ hv)
      exact ⟨honest.append h.honest, h.row⟩
    | inr b =>
      refine ⟨honest.append .nil, fun b' hb => ?_⟩
      obtain rfl : b = b' := by injection hb
      exact row _ hv

/-- A loop adds what its rounds add. -/
theorem Adds.loop {step : σ → Parser (σ ⊕ β)} (st : σ → List Node) (ha : Advances step)
    (hs : ∀ s, Steady (step s)) (hstep : ∀ s, Adds S lo (st s) (Sum.elim st more) (step s))
    (s : σ) :
    Adds S lo (st s) more (Parser.loop step s) :=
  .rounds st ha (fun s => (hs s).sound) (fun s _ c hc hv =>
    let ⟨_, hu⟩ := (hs s).lands S.ended c (hv ▸ Option.some_ne_none _)
    hc.passes hu) hstep s

/-- The nodes of a loop that starts with none. -/
theorem Lays.loop {step : σ → Parser (σ ⊕ β)} (st : σ → List Node) {s : σ} (h : st s = [])
    (ha : Advances step) (hs : ∀ s, Steady (step s))
    (hstep : ∀ lo s, Adds S lo (st s) (Sum.elim st more) (step s)) :
    Lays S more (Parser.loop step s) :=
  .of (.loop ha hs s) fun lo => h ▸ Adds.loop st ha hs (hstep lo) s

/-! ### Cuts -/

/-- What gives up is cut out, and the fragment is a node without parts. -/
theorem Laid.orCut {cut : Mark → Parser ErrorNode} {h : ErrorNode → α} (hc : S.Whole c)
    (hp : Lays S out p) (hcut : Cut fun m => h <$> cut m) (hpatch : Patches (.whole S) cut)
    (hstay : ∀ m : Mark, m.count = c.count → (cut m S.source c).value ≠ none →
      (cut m S.source c).cursor.rest.length < c.rest.length)
    (hout : ∀ e, out (h e) = [Node.leaf e.span]) :
    Laid S (S.next c) out (orRecover p (h <$> cut (.here S.source c)) S.source c) := by
  have hlands := hcut.lands hp.steady S.ended (m := .here S.source c) (c := c) rfl
  have hrun := hp.rows c hc
  cases hv : (p S.source c).value with
  | some a =>
    rw [orRecover_of_some hv]
    exact hrun
  | none =>
    have hmoves := hp.steady.moves S.ended c
    obtain ⟨hcutMoves, hnotes⟩ := hpatch.tacit (.here S.source c) (p S.source c).cursor
      ⟨c, hc.on, rfl, hmoves⟩
    have hstart : (p S.source c).cursor = c ∨ (p S.source c).cursor.rest.length < c.rest.length :=
      hmoves.eq_or_lt.imp id And.left
    rw [orRecover_of_none hv, map_run] at hlands ⊢
    refine ⟨hrun.honest.append (.events hnotes), fun b hb => ?_⟩
    obtain ⟨e, he, rfl⟩ := Option.map_eq_some_iff.1 hb
    have hlt : (cut (.here S.source c) S.source (p S.source c).cursor).cursor.rest.length <
        c.rest.length := by
      rcases hstart with hd | hlt
      · rw [hd] at he ⊢
        exact hstay _ rfl (he ▸ Option.some_ne_none e)
      · exact Nat.lt_of_le_of_lt hcutMoves.length_le hlt
    rw [hout]
    exact .node hc (.inl hlands) ((hmoves.trans hcutMoves).count_lt_iff.2 hlt)
      (hpatch.covers _ _ _ e he) .nil

/-- A piece that is read or cut out is added to the row. -/
theorem AddsAt.orCut {cut : Mark → Parser ErrorNode} {h : ErrorNode → α} (hc : S.Whole c)
    (hp : Lays S out p) (hcut : Cut fun m => h <$> cut m) (hpatch : Patches (.whole S) cut)
    (hstay : ∀ m : Mark, m.count = c.count → (cut m S.source c).value ≠ none →
      (cut m S.source c).cursor.rest.length < c.rest.length)
    (hout : ∀ e, out (h e) = [Node.leaf e.span])
    (hk : ∀ a, Adds S lo (pre ++ out a) more (k a)) :
    AddsAt S c lo pre more (Parser.mark >>= fun m => orRecover p (h <$> cut m) >>= k) := by
  obtain ⟨u, hu⟩ := hcut.lands hp.steady S.ended (m := .here S.source c) (c := c) rfl
  show AddsAt S c lo pre more (orRecover p (h <$> cut (.here S.source c)) >>= k)
  exact .bind hc hu.reaches (.orCut hc hp hcut hpatch hstay hout) fun a _ => hk a _ (hc.passes hu)

end Parser
end Ndf
